import Commentary.Proofs.Markup.AddressPattern
import Mathlib.Data.List.Chain

/-!
# Addresses from left to right

A text is cut by two searches. Each looks for the first match of its pattern, tries whether it is
accepted where it stands, and goes on behind the start of the match if it is not; the nearer of what
they find is cut off, and both start again behind it. The segments are those of a plain scan, which
tries both patterns at every place that is not taken yet and goes on by one character.
-/

namespace Commentary.Markup.Segment

variable {t rest : Text} {before : Option Char} {s : Segment}

/-! ## The searches -/

/-- What matches at the start of a text behind a character, if it is accepted there. -/
def accepted (match? : Text → Option (Segment × Text)) (mayEndBefore : Text → Bool)
    (before : Option Char) (t : Text) : Option (Segment × Text) :=
  (match? t).filter fun (_, rest) => mayStartAfter before && mayEndBefore rest

theorem acceptedUrl?_eq : acceptedUrl? = accepted urlMatch? urlMayEndBefore := by
  rw [funext urlMatch?_eq_urlAt?]
  rfl

theorem acceptedEmail?_eq : acceptedEmail? = accepted emailMatch? emailMayEndBefore := by
  rw [funext emailMatch?_eq_emailAt?]
  rfl

/-- What was found behind some text that was passed. -/
def Found.behind (passed : Text) (f : Found) : Found := { f with before := passed ++ f.before }

/-- The search for the first match that is accepted: where the first match is not, it goes on
behind the character at which this starts. -/
def search (match? : Text → Option (Segment × Text)) (mayEndBefore : Text → Bool)
    (before : Option Char) (t : Text) : Option Found :=
  match firstAt (fun _ => match?) before t with
  | none => none
  | some f =>
    if mayStartAfter (f.before.getLast?.or before) && mayEndBefore f.rest then some f
    else
      match _h : t.drop f.before.length with
      | [] => none
      | c :: u => (search match? mayEndBefore (some c) u).map (·.behind (f.before ++ [c]))
termination_by t.length
decreasing_by
  have hlength := congrArg List.length _h
  rw [List.length_drop, List.length_cons] at hlength
  omega

section Search

variable {match? : Text → Option (Segment × Text)} {mayEndBefore : Text → Bool} {f : Found}

theorem firstAt_cons (at? : Option Char → Text → Option (Segment × Text)) (before : Option Char)
    (c : Char) (t : Text) :
    firstAt at? before (c :: t) =
      match at? before (c :: t) with
      | some (segment, rest) => some ⟨[], segment, rest⟩
      | none => (firstAt at? (some c) t).map (·.behind [c]) := rfl

theorem accepted_of_match?_eq_none (h : match? t = none) :
    accepted match? mayEndBefore before t = none := by
  rw [accepted, h, Option.filter_none]

theorem accepted_of_match?_eq_some (h : match? t = some (s, rest)) :
    accepted match? mayEndBefore before t =
      if mayStartAfter before && mayEndBefore rest then some (s, rest) else none := by
  rw [accepted, h, Option.filter_some]

/-- Where nothing matches, nothing is accepted. -/
theorem firstAt_accepted_of_none (h : firstAt (fun _ => match?) before t = none) :
    firstAt (accepted match? mayEndBefore) before t = none := by
  induction t generalizing before with
  | nil => rfl
  | cons c t ih =>
      rw [firstAt_cons] at h ⊢
      cases hmatch : match? (c :: t) with
      | some found => simp [hmatch] at h
      | none =>
          rw [accepted_of_match?_eq_none hmatch]
          rw [hmatch] at h
          simp only [ih (Option.map_eq_none_iff.mp h), Option.map_none]

theorem getLast?_cons_or (c : Char) (t : Text) (before : Option Char) :
    (c :: t).getLast?.or before = t.getLast?.or (some c) := by
  rw [List.getLast?_cons]
  cases t.getLast? <;> rfl

/-- The first match, if it is accepted where it stands, is the first one that is accepted. -/
theorem firstAt_accepted_of_accepted (h : firstAt (fun _ => match?) before t = some f)
    (hok : mayStartAfter (f.before.getLast?.or before) && mayEndBefore f.rest) :
    firstAt (accepted match? mayEndBefore) before t = some f := by
  induction t generalizing before f with
  | nil => cases h
  | cons c t ih =>
      rw [firstAt_cons] at h ⊢
      cases hmatch : match? (c :: t) with
      | some found =>
          obtain ⟨s, rest⟩ := found
          rw [hmatch] at h
          cases h
          have hhere : mayStartAfter before && mayEndBefore rest := hok
          rw [accepted_of_match?_eq_some hmatch, if_pos hhere]
      | none =>
          rw [hmatch] at h
          obtain ⟨g, hg, rfl⟩ := Option.map_eq_some_iff.mp h
          rw [accepted_of_match?_eq_none hmatch]
          rw [Found.behind, List.singleton_append, getLast?_cons_or] at hok
          simp only [ih hg hok, Option.map_some]

/-- If the first match is not accepted, the first one that is lies behind the start of it. -/
theorem exists_firstAt_accepted_of_not (h : firstAt (fun _ => match?) before t = some f)
    (hok : ¬ (mayStartAfter (f.before.getLast?.or before) && mayEndBefore f.rest)) :
    ∃ c u, t.drop f.before.length = c :: u ∧
      firstAt (accepted match? mayEndBefore) before t =
        (firstAt (accepted match? mayEndBefore) (some c) u).map (·.behind (f.before ++ [c])) := by
  induction t generalizing before f with
  | nil => cases h
  | cons c t ih =>
      rw [firstAt_cons] at h
      cases hmatch : match? (c :: t) with
      | some found =>
          obtain ⟨s, rest⟩ := found
          rw [hmatch] at h
          cases h
          refine ⟨c, t, rfl, ?_⟩
          have hhere : ¬ (mayStartAfter before && mayEndBefore rest) := hok
          rw [firstAt_cons, accepted_of_match?_eq_some hmatch, if_neg hhere]
          rfl
      | none =>
          rw [hmatch] at h
          obtain ⟨g, hg, rfl⟩ := Option.map_eq_some_iff.mp h
          rw [Found.behind, List.singleton_append, getLast?_cons_or] at hok
          obtain ⟨d, u, hdrop, hfirst⟩ := ih hg hok
          refine ⟨d, u, hdrop, ?_⟩
          rw [firstAt_cons, accepted_of_match?_eq_none hmatch, hfirst]
          simp only [Option.map_map]
          rfl

/-- The search finds the first place where something is accepted. -/
theorem search_eq_firstAt (match? : Text → Option (Segment × Text)) (mayEndBefore : Text → Bool)
    (before : Option Char) (t : Text) :
    search match? mayEndBefore before t = firstAt (accepted match? mayEndBefore) before t := by
  -- the search goes on in the middle of the text, so the induction is on the length
  induction hn : t.length using Nat.strong_induction_on generalizing before t with
  | _ n ih =>
      rw [search]
      cases hfirst : firstAt (fun _ => match?) before t with
      | none => exact (firstAt_accepted_of_none hfirst).symm
      | some f =>
          by_cases hok : mayStartAfter (f.before.getLast?.or before) && mayEndBefore f.rest
          · rw [firstAt_accepted_of_accepted hfirst hok]
            exact if_pos hok
          · obtain ⟨c, u, hdrop, haccepted⟩ := exists_firstAt_accepted_of_not hfirst hok
            have hlength : u.length < n := by
              have hlength := congrArg List.length hdrop
              rw [List.length_drop, List.length_cons] at hlength
              omega
            rw [haccepted, ← ih u.length hlength (some c) u rfl]
            dsimp only
            rw [if_neg hok]
            split
            · next hnil => rw [hnil] at hdrop; cases hdrop
            · next d v hcons =>
                rw [hcons] at hdrop
                cases hdrop
                rfl

end Search

/-- What is found first matches where it is found. -/
theorem exists_of_firstAt {at? : Option Char → Text → Option (Segment × Text)} {f : Found}
    (h : firstAt at? before t = some f) :
    ∃ u, f.before ++ u = t ∧ ∃ before', at? before' u = some (f.segment, f.rest) := by
  induction t generalizing before f with
  | nil => cases h
  | cons c t ih =>
      rw [firstAt_cons] at h
      cases hat : at? before (c :: t) with
      | some found =>
          rw [hat] at h
          cases h
          exact ⟨c :: t, rfl, before, hat⟩
      | none =>
          rw [hat] at h
          obtain ⟨g, hg, rfl⟩ := Option.map_eq_some_iff.mp h
          obtain ⟨u, hu, hfound⟩ := ih hg
          exact ⟨u, congrArg (c :: ·) hu, hfound⟩

/-! ## The scan -/

/-- The URL that is accepted at the start of a text, or else the mail address. It is unfolded by
name only, so that unfolding a scan does not look for addresses. -/
@[irreducible]
def linkAt? (before : Option Char) (t : Text) : Option (Segment × Text) :=
  (accepted urlMatch? urlMayEndBefore before t).or (accepted emailMatch? emailMayEndBefore before t)

/-- A character before some segments: it goes to the text that they start with, or is a text. -/
def consChar (c : Char) : List Segment → List Segment
  | text u :: segments => text (c :: u) :: segments
  | segments => text [c] :: segments

/-- The plain scan. At each place, behind the characters that the last address takes, an address is
tried, and where there is none the character belongs to a text. -/
def scan (before : Option Char) (skip : Nat) : Text → List Segment
  | [] => []
  | c :: t =>
    match skip with
    | skip + 1 => scan (some c) skip t
    | 0 =>
      match linkAt? before (c :: t) with
      | some (segment, _) => segment :: scan (some c) (segment.written.length - 1) t
      | none => consChar c (scan (some c) 0 t)

/-- A text as a segment, if there is any. -/
def plain (t : Text) : List Segment := if t = [] then [] else [text t]

/-- The run of the two searches over a text behind a character, up to where both find nothing. -/
inductive Runs : Option Char → Text → List Segment → Prop where
  | done {before : Option Char} {t : Text}
      (h : nearer (search emailMatch? emailMayEndBefore before t)
        (search urlMatch? urlMayEndBefore before t) = none) : Runs before t (plain t)
  | found {before : Option Char} {t : Text} {f : Found} {segments : List Segment}
      (h : nearer (search emailMatch? emailMayEndBefore before t)
        (search urlMatch? urlMayEndBefore before t) = some f)
      (hrest : Runs f.segment.written.getLast? f.rest segments) :
      Runs before t (plain f.before ++ f.segment :: segments)

/-- Whether a segment is no address. -/
def isText : Segment → Bool
  | text _ => true
  | _ => false

/-- An address at the start of a text, and the rest. -/
structure IsLinkOf (s : Segment) (rest t : Text) : Prop where
  append : s.written ++ rest = t
  nonempty : s.written ≠ []
  notText : s.isText = false

theorem isLinkOf_of_urlMatch? (h : urlMatch? t = some (s, rest)) : s.IsLinkOf rest t := by
  have hat : urlAt? t = some (s, rest) := urlMatch?_eq_urlAt? t ▸ h
  have hproper := proper_of_urlAt? hat
  refine ⟨written_append_of_urlAt? hat, ?_, ?_⟩
  all_goals
    obtain ⟨_, -, heq⟩ := Option.map_eq_some_iff.mp h
    cases heq
  · exact List.ne_nil_of_mem hproper
  · rfl

theorem isLinkOf_of_emailMatch? (h : emailMatch? t = some (s, rest)) : s.IsLinkOf rest t := by
  have hat : emailAt? t = some (s, rest) := emailMatch?_eq_emailAt? t ▸ h
  have hproper := proper_of_emailAt? hat
  refine ⟨written_append_of_emailAt? hat, ?_, ?_⟩
  all_goals
    obtain ⟨_, -, heq⟩ := Option.map_eq_some_iff.mp h
    cases heq
  · exact List.ne_nil_of_mem (hproper.1 hproper.2)
  · rfl

theorem isLinkOf_of_linkAt? (h : linkAt? before t = some (s, rest)) : s.IsLinkOf rest t := by
  rw [linkAt?] at h
  rcases Option.or_eq_some_iff.mp h with h | ⟨-, h⟩
  · exact isLinkOf_of_urlMatch? (Option.filter_eq_some_iff.mp h).1
  · exact isLinkOf_of_emailMatch? (Option.filter_eq_some_iff.mp h).1

theorem isLinkOf_of_firstAt {f : Found} (h : firstAt linkAt? before t = some f) :
    ∃ u, f.before ++ u = t ∧ f.segment.IsLinkOf f.rest u := by
  obtain ⟨u, hu, _, hat⟩ := exists_of_firstAt h
  exact ⟨u, hu, isLinkOf_of_linkAt? hat⟩

/-- An address is cut off, and the text becomes shorter. -/
theorem length_rest_lt {f : Found} (h : firstAt linkAt? before t = some f) :
    f.rest.length < t.length := by
  obtain ⟨u, rfl, hlink⟩ := isLinkOf_of_firstAt h
  have hpos := List.length_pos_of_ne_nil hlink.nonempty
  rw [← hlink.append, List.length_append, List.length_append]
  omega

theorem nearer_here (mail : Option Found) (s : Segment) (rest : Text) :
    nearer mail (some ⟨[], s, rest⟩) = some ⟨[], s, rest⟩ := by
  cases mail with
  | none => rfl
  | some mail =>
      rw [nearer]
      exact if_pos (Nat.zero_le mail.before.length)

theorem nearer_behind (c : Char) (mail link : Option Found) :
    nearer (mail.map (·.behind [c])) (link.map (·.behind [c])) =
      (nearer mail link).map (·.behind [c]) := by
  cases mail with
  | none => cases link <;> rfl
  | some mail =>
      cases link with
      | none => rfl
      | some link =>
          simp only [Option.map_some, nearer, Found.behind, List.length_append,
            Nat.add_le_add_iff_left]
          split_ifs <;> rfl

/-- The nearer of a mail address and a URL is what stands at the first place with either of them. -/
theorem nearer_firstAt (before : Option Char) (t : Text) :
    nearer (firstAt acceptedEmail? before t) (firstAt acceptedUrl? before t) =
      firstAt linkAt? before t := by
  have hlink : ∀ before t,
      linkAt? before t = (acceptedUrl? before t).or (acceptedEmail? before t) :=
    fun before t => by rw [linkAt?, acceptedUrl?_eq, acceptedEmail?_eq]
  induction t generalizing before with
  | nil => rfl
  | cons c t ih =>
      rw [firstAt_cons, firstAt_cons, firstAt_cons, hlink]
      cases acceptedUrl? before (c :: t) with
      | some link => exact nearer_here _ link.1 link.2
      | none =>
          cases acceptedEmail? before (c :: t) with
          | some mail =>
              dsimp only [Option.none_or]
              cases firstAt acceptedUrl? (some c) t with
              | none => rfl
              | some g =>
                  rw [Option.map_some, nearer]
                  exact if_neg (by simp [Found.behind])
          | none =>
              dsimp only [Option.none_or]
              rw [nearer_behind, ih]

theorem nearer_search (before : Option Char) (t : Text) :
    nearer (search emailMatch? emailMayEndBefore before t)
      (search urlMatch? urlMayEndBefore before t) = firstAt linkAt? before t := by
  rw [search_eq_firstAt, search_eq_firstAt, ← acceptedEmail?_eq, ← acceptedUrl?_eq, nearer_firstAt]

theorem scan_append (before : Option Char) (u rest : Text) :
    scan before u.length (u ++ rest) = scan (u.getLast?.or before) 0 rest := by
  induction u generalizing before with
  | nil => rfl
  | cons c u ih => rw [getLast?_cons_or]; exact ih (some c)

theorem consChar_plain_append (c : Char) (t : Text) {segments : List Segment}
    (h : ∀ s, segments.head? = some s → s.isText = false) :
    consChar c (plain t ++ segments) = plain (c :: t) ++ segments := by
  cases t with
  | nil =>
      cases segments with
      | nil => rfl
      | cons s segments =>
          cases s with
          | text u => cases h _ rfl
          | _ => rfl
  | cons d t => rfl

/-- The scan comes to the first place where an address is accepted, and begins again behind it. -/
theorem scan_eq (before : Option Char) (t : Text) :
    scan before 0 t =
      match firstAt linkAt? before t with
      | none => plain t
      | some f => plain f.before ++ f.segment :: scan f.segment.written.getLast? 0 f.rest := by
  induction t generalizing before with
  | nil => rfl
  | cons c t ih =>
      rw [scan, firstAt_cons]
      cases hlink : linkAt? before (c :: t) with
      | some found =>
          obtain ⟨s, rest⟩ := found
          -- the scan stands at the first character of the address and has to pass the others
          have hs := isLinkOf_of_linkAt? hlink
          obtain ⟨d, w, hw⟩ := List.exists_cons_of_ne_nil hs.nonempty
          have happend := hs.append
          rw [hw, List.cons_append] at happend
          obtain ⟨rfl, rfl⟩ := List.cons.inj happend
          have hlast : (d :: w).getLast? = w.getLast?.or (some d) := by
            rw [← getLast?_cons_or d w none, Option.or_none]
          dsimp only
          rw [hw, hlast, List.length_cons, Nat.add_sub_cancel, scan_append]
          rfl
      | none =>
          dsimp only
          rw [ih]
          cases hfirst : firstAt linkAt? (some c) t with
          | none =>
              have hplain : consChar c (plain t ++ []) = plain (c :: t) ++ [] :=
                consChar_plain_append c t fun s h => nomatch h
              simpa using hplain
          | some f =>
              obtain ⟨u, -, hs⟩ := isLinkOf_of_firstAt hfirst
              refine consChar_plain_append c f.before fun s h => ?_
              obtain rfl := Option.some_inj.mp h
              exact hs.notText

/-- Cutting a text gives the segments of the scan. -/
theorem cut_eq_scan {fuel : Nat} (h : t.length ≤ fuel) (before : Option Char) :
    cut fuel before t = scan before 0 t := by
  induction fuel generalizing before t with
  | zero =>
      obtain rfl := List.length_eq_zero_iff.mp (Nat.le_zero.mp h)
      rfl
  | succ fuel ih =>
      rw [cut.eq_def, nearer_firstAt, scan_eq]
      cases hfirst : firstAt linkAt? before t with
      | none => rfl
      | some f =>
          have hlength := length_rest_lt hfirst
          exact congrArg (plain f.before ++ f.segment :: ·) (ih (by omega) _)

/-- The two searches come to an end, with the segments of the scan and with no other ones. -/
theorem runs_iff (before : Option Char) (t : Text) (segments : List Segment) :
    Runs before t segments ↔ segments = scan before 0 t := by
  constructor
  · intro h
    induction h with
    | done h =>
        rw [nearer_search] at h
        rw [scan_eq, h]
    | found h _ ih =>
        rw [nearer_search] at h
        rw [scan_eq, h, ih]
  · rintro rfl
    induction hn : t.length using Nat.strong_induction_on generalizing before t with
    | _ n ih =>
        rw [scan_eq]
        cases hfirst : firstAt linkAt? before t with
        | none => exact .done ((nearer_search before t).trans hfirst)
        | some f =>
            exact .found ((nearer_search before t).trans hfirst)
              (ih _ (hn ▸ length_rest_lt hfirst) _ _ rfl)

/-! ## What the segments are -/

theorem nonempty_of_mem_consChar {c : Char} {segments : List Segment}
    (h : ∀ s ∈ segments, s.written ≠ []) : ∀ s ∈ consChar c segments, s.written ≠ [] := by
  have hchar : (text [c]).written ≠ [] := List.cons_ne_nil c []
  rcases segments with _ | ⟨_ | _ | _, segments⟩
  case cons.text u =>
    exact List.forall_mem_cons.mpr ⟨List.cons_ne_nil c u, (List.forall_mem_cons.mp h).2⟩
  all_goals exact List.forall_mem_cons.mpr ⟨hchar, h⟩

theorem nonempty_of_mem_scan {skip : Nat} (h : s ∈ scan before skip t) : s.written ≠ [] := by
  induction t generalizing before skip s with
  | nil => cases h
  | cons c t ih =>
      cases skip with
      | succ skip => exact ih h
      | zero =>
          rw [scan] at h
          split at h
          · next found hlink =>
              rcases List.mem_cons.mp h with rfl | h
              · exact (isLinkOf_of_linkAt? hlink).nonempty
              · exact ih h
          · exact nonempty_of_mem_consChar (fun s hs => ih hs) s h

/-- At most one of two segments is a text. -/
def Separate (s s' : Segment) : Prop := ¬ (s.isText ∧ s'.isText)

theorem isChain_consChar {segments : List Segment} (h : segments.IsChain Separate) (c : Char) :
    (consChar c segments).IsChain Separate := by
  rcases segments with _ | ⟨s, segments⟩
  · exact .singleton _
  · cases s with
    | text u =>
        obtain ⟨hhead, hsegments⟩ := List.isChain_cons.mp h
        exact List.isChain_cons.mpr ⟨hhead, hsegments⟩
    | _ => exact .cons_cons (fun h => Bool.false_ne_true h.2) h

/-- No text comes behind a text. -/
theorem isChain_scan (before : Option Char) (skip : Nat) (t : Text) :
    (scan before skip t).IsChain Separate := by
  induction t generalizing before skip with
  | nil => exact .nil
  | cons c t ih =>
      cases skip with
      | succ skip => exact ih _ skip
      | zero =>
          rw [scan]
          split
          · next s rest hlink =>
              have hs := (isLinkOf_of_linkAt? hlink).notText
              refine List.isChain_cons.mpr ⟨fun s' _ h => ?_, ih _ _⟩
              exact Bool.false_ne_true (hs.symm.trans h.1)
          · exact isChain_consChar (ih _ _) c

/-- The two searches over a text come to an end with the segments of the plain scan and with no
other ones. The segments give the text back, none of them is empty, and no text comes behind a
text. -/
theorem ofText_eq_scan (t : Text) :
    (∀ segments, Runs none t segments ↔ segments = scan none 0 t) ∧ ofText t = scan none 0 t ∧
      (ofText t).flatMap written = t ∧ (∀ s ∈ ofText t, s.written ≠ []) ∧
      (ofText t).IsChain Separate := by
  have hscan : ofText t = scan none 0 t := cut_eq_scan (le_refl _) none
  refine ⟨runs_iff none t, hscan, flatMap_written_cut _ _ t, fun s hs => ?_, ?_⟩
  · rw [hscan] at hs
    exact nonempty_of_mem_scan hs
  · rw [hscan]
    exact isChain_scan none 0 t

end Commentary.Markup.Segment
