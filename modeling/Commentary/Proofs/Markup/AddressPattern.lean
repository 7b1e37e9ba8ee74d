import Commentary.Proofs.Markup.Address
import Commentary.Proofs.Text.Pattern
import Commentary.Proofs.Text.Words

/-!
# The patterns of addresses

Mail addresses and URLs are what two patterns match. Most ways to match them fail, and the reading
of an address goes straight to the one that does not: of the parts of a mailbox and of a domain each
ends where a dot or an at sign stands, a URL goes on up to the last character that may end it, and
what comes behind the scheme of a mail address cannot be passed over.
-/

namespace Commentary

open Markup

namespace Text

variable {w w' t rest rest' : Text}

theorem afterWord?_append (w w' t : Text) :
    afterWord? (w ++ w') t = (afterWord? w t).bind (afterWord? w') := by
  induction w generalizing t with
  | nil => rfl
  | cons m w ih =>
      cases t with
      | nil => rfl
      | cons c t =>
          rw [List.cons_append, afterWord?, afterWord?, ih]
          split_ifs <;> rfl

/-- The letters and marks of which no two are forms of one character. -/
def isPlainLetter (m : Char) : Bool := m.isLower || m = ':'

theorem eq_of_isLetter {m m' c : Char} (hm : isPlainLetter m) (hm' : isPlainLetter m')
    (h : isLetter m c) (h' : isLetter m' c) : m = m' := by
  have hlong : ¬ isPlainLetter ('ſ'.toLower) := by decide
  have hkelvin : ¬ isPlainLetter ('\u212A'.toLower) := by decide
  simp only [isLetter, Bool.or_eq_true, Bool.and_eq_true, beq_iff_eq] at h h'
  rcases h with (rfl | ⟨rfl, rfl⟩) | ⟨rfl, rfl⟩
  · rcases h' with (rfl | ⟨-, rfl⟩) | ⟨-, rfl⟩
    · rfl
    · exact absurd hm hlong
    · exact absurd hm hkelvin
  · rcases h' with (rfl | ⟨rfl, -⟩) | ⟨-, h⟩
    · exact absurd hm' hlong
    · rfl
    · exact absurd h (by decide)
  · rcases h' with (rfl | ⟨-, h⟩) | ⟨rfl, -⟩
    · exact absurd hm' hkelvin
    · exact absurd h (by decide)
    · rfl

/-- Of two words that a text starts with, one is the start of the other. -/
theorem isPrefix_or_of_afterWord? (hw : w.all isPlainLetter) (hw' : w'.all isPlainLetter)
    (h : afterWord? w t = some rest) (h' : afterWord? w' t = some rest') :
    w <+: w' ∨ w' <+: w := by
  induction w generalizing w' t with
  | nil => exact .inl List.nil_prefix
  | cons m w ih =>
      cases w' with
      | nil => exact .inr List.nil_prefix
      | cons m' w' =>
          cases t with
          | nil => cases h
          | cons c t =>
              obtain ⟨hm, hw⟩ := (Bool.and_eq_true _ _).mp (List.all_cons ▸ hw)
              obtain ⟨hm', hw'⟩ := (Bool.and_eq_true _ _).mp (List.all_cons ▸ hw')
              obtain ⟨hc, h⟩ := Option.ite_none_right_eq_some.mp h
              obtain ⟨hc', h'⟩ := Option.ite_none_right_eq_some.mp h'
              rw [eq_of_isLetter hm hm' hc hc', List.prefix_cons_inj, List.prefix_cons_inj]
              exact ih hw hw' h h'

end Text

namespace Markup.Segment

open Pattern

variable {t : Text}

/-! ## URLs -/

/-- The schemes of URLs, a colon, and the characters of a URL up to one that may end it. -/
def urlPattern : Pattern :=
  seq (seq (anyOf ["http".toList, "https".toList, "ftp".toList, "news".toList, "file".toList])
    (word [':'])) (seq (star (one isUrlChar)) (one isUrlEndChar))

/-- The URL that the pattern matches at the start of a text, and the rest. -/
def urlMatch? (t : Text) : Option (Segment × Text) :=
  (urlPattern.rests t).head?.map fun rest => (.url (t.take (t.length - rest.length)), rest)

/-- A choice between things that exclude each other is the first one that there is. -/
theorem flatMap_toList_of_pairwise {α β : Type} {f : α → Option β} {l : List α}
    (h : l.Pairwise fun a b => (f a).isSome → f b = none) :
    l.flatMap (fun a => (f a).toList) = (l.findSome? f).toList := by
  induction h with
  | nil => rfl
  | @cons a l ha _ ih =>
      rw [List.flatMap_cons, ih, List.findSome?_cons]
      cases hfa : f a with
      | none => rfl
      | some b =>
          have hnone : l.findSome? f = none :=
            List.findSome?_eq_none_iff.mpr fun a' ha' => ha a' ha' (by simp [hfa])
          simp [hnone]

/-- A text starts with one scheme at most. -/
theorem rests_urlSchemes (t : Text) :
    (seq (anyOf ["http".toList, "https".toList, "ftp".toList, "news".toList, "file".toList])
      (word [':'])).rests t =
      (urlSchemes.findSome? fun scheme => Text.afterWord? scheme t).toList := by
  have hpairwise : urlSchemes.Pairwise fun s s' =>
      (Text.afterWord? s t).isSome → Text.afterWord? s' t = none := by
    have hplain : ∀ s ∈ urlSchemes, s.all Text.isPlainLetter := by decide
    have hprefix : urlSchemes.Pairwise fun s s' => ¬ s <+: s' ∧ ¬ s' <+: s := by decide
    refine hprefix.imp_of_mem fun {s s'} hs hs' hne hsome => ?_
    obtain ⟨rest, hrest⟩ := Option.isSome_iff_exists.mp hsome
    refine Option.eq_none_iff_forall_ne_some.mpr fun rest' hrest' => ?_
    exact (Text.isPrefix_or_of_afterWord? (hplain s hs) (hplain s' hs') hrest hrest').elim hne.1
      hne.2
  have hcolon : ∀ w : Text, (Text.afterWord? w t).toList.flatMap (word [':']).rests =
      (Text.afterWord? (w ++ [':']) t).toList := by
    intro w
    rw [Text.afterWord?_append]
    cases Text.afterWord? w t with
    | none => rfl
    | some rest => rw [Option.toList_some, List.flatMap_singleton, rests_word, Option.bind_some]
  rw [← flatMap_toList_of_pairwise hpairwise, rests_seq, rests_anyOf, List.flatMap_assoc,
    funext hcolon]
  rfl

/-- The characters of a URL are matched up to the last one that may end it. -/
theorem head?_rests_urlPath (body : Text) :
    ((seq (star (one isUrlChar)) (one isUrlEndChar)).rests body).head? =
      let path := Text.trimEnd (fun c => !isUrlEndChar c) (body.takeWhile isUrlChar)
      if path = [] then none else some (body.drop path.length) := by
  dsimp only
  rw [rests_seq]
  induction body with
  | nil =>
      rw [rests_star_one_nil]
      rfl
  | cons c t ih =>
      by_cases hc : isUrlChar c
      · rw [rests_star_one_cons_of_pos hc, List.flatMap_append, List.flatMap_singleton,
          rests_one_cons, List.head?_append, ih, List.takeWhile_cons_of_pos hc, Text.trimEnd]
        cases Text.trimEnd (fun c => !isUrlEndChar c) (t.takeWhile isUrlChar) with
        | nil => by_cases hend : isUrlEndChar c <;> simp [hend]
        | cons d path => simp
      · have hend : ¬ isUrlEndChar c := fun hend => hc (by simp [isUrlChar, hend])
        rw [rests_star_one_cons_of_neg hc, List.flatMap_singleton, rests_one_cons, if_neg hend,
          List.takeWhile_cons_of_neg hc]
        rfl

/-- What is read as a URL is what its pattern matches. -/
theorem urlMatch?_eq_urlAt? (t : Text) : urlMatch? t = urlAt? t := by
  rw [urlMatch?, urlPattern, rests_seq, rests_urlSchemes, urlAt?]
  cases urlSchemes.findSome? fun scheme => Text.afterWord? scheme t with
  | none => rfl
  | some body =>
      rw [Option.toList_some, List.flatMap_singleton, head?_rests_urlPath]
      dsimp only
      split_ifs <;> rfl

/-! ## Mail addresses -/

/-- Characters of a class, and a dot. -/
def dottedPattern (p : Char → Bool) : Pattern := seq (plus (one p)) (one (· = '.'))

/-- The characters of a mailbox in parts with dots between them, and an at sign. -/
def mailboxPattern : Pattern :=
  seq (star (dottedPattern isMailboxChar)) (seq (plus (one isMailboxChar)) (one (· = '@')))

/-- Two to four letters. -/
def topDomainPattern : Pattern :=
  seq (one Text.isBasicLetter) (seq (one Text.isBasicLetter) (atMost Text.isBasicLetter 2))

/-- The parts of a domain, each with the dot that ends it, and the last one. -/
def domainPattern : Pattern := seq (plus (dottedPattern isDomainChar)) topDomainPattern

/-- A mail address without its scheme. -/
def addressPattern : Pattern := seq mailboxPattern domainPattern

/-- What the first way to match the pattern of a mail address leaves, behind the scheme, which may
be missing, and behind all of it. -/
def emailRests? (t : Text) : Option (Text × Text) :=
  (((opt (word mailScheme)).rests t).flatMap fun u =>
    (addressPattern.rests u).map fun rest => (u, rest)).head?

/-- The mail address that the pattern matches at the start of a text, and the rest. -/
def emailMatch? (t : Text) : Option (Segment × Text) :=
  (emailRests? t).map fun (u, rest) =>
    (.email (t.take (t.length - rest.length)) (u.take (u.length - rest.length)), rest)

variable {p : Char → Bool} {run u : Text} {c : Char}

theorem ne_of_not_class {x : Char} (hx : ¬ p x) : ∀ c, p c → ¬ decide (c = x) := by
  rintro c hc heq
  exact hx (of_decide_eq_true heq ▸ hc)

/-- A run of characters of a class, and where it stops. -/
structure IsRun (p : Char → Bool) (run behind : Text) : Prop where
  all : ∀ c ∈ run, p c
  stops : ∀ c rest, behind = c :: rest → ¬ p c

theorem exists_isRun (p : Char → Bool) (t : Text) : ∃ run behind, t = run ++ behind ∧
    IsRun p run behind := by
  refine ⟨t.takeWhile p, t.dropWhile p, List.takeWhile_append_dropWhile.symm,
    fun c hc => List.mem_takeWhile_imp hc, fun c rest hrest hc => ?_⟩
  have hne : t.dropWhile p ≠ [] := by simp [hrest]
  have hhead := List.head_dropWhile_not p hne
  simp [hrest, hc] at hhead

namespace IsRun

variable {behind : Text}

theorem dropWhile_behind (h : IsRun p run behind) : behind.dropWhile p = behind := by
  cases behind with
  | nil => rfl
  | cons c rest => exact List.dropWhile_cons_of_neg (h.stops c rest rfl)

theorem takeWhile_behind (h : IsRun p run behind) : behind.takeWhile p = [] := by
  cases behind with
  | nil => rfl
  | cons c rest => exact List.takeWhile_cons_of_neg (h.stops c rest rfl)

/-- A run and a character of another class behind it are matched in one way or in none. -/
theorem rests_plus_one (h : IsRun p run behind) {x : Char → Bool} (hx : ∀ c, p c → ¬ x c) :
    (seq (plus (one p)) (one x)).rests (run ++ behind) =
      if run = [] then [] else (one x).rests behind := by
  rw [rests_plus_one_then hx, List.takeWhile_append_of_pos h.all,
    List.dropWhile_append_of_pos h.all, h.dropWhile_behind, h.takeWhile_behind, List.append_nil]

end IsRun

theorem rests_star_dotted (hp : ¬ p '.') (b : Pattern) (t : Text) :
    (seq (star (dottedPattern p)) b).rests t =
      ((dottedPattern p).rests t).flatMap (seq (star (dottedPattern p)) b).rests ++ b.rests t := by
  have hshorter : ∀ rest ∈ (dottedPattern p).rests t, rest.length < t.length := by
    obtain ⟨run, behind, rfl, hrun⟩ := exists_isRun p t
    intro rest hrest
    rw [dottedPattern, hrun.rests_plus_one (ne_of_not_class hp)] at hrest
    split_ifs at hrest
    · cases hrest
    · cases behind with
      | nil => cases hrest
      | cons c u =>
          rw [rests_one_cons] at hrest
          split_ifs at hrest
          · obtain rfl := List.mem_singleton.mp hrest
            simp
            omega
          · cases hrest
  rw [rests_seq, rests_star hshorter, List.flatMap_append, List.flatMap_singleton,
    List.flatMap_assoc]
  rfl

/-! ### The mailbox -/

/-- A character of a mail address before the at sign. -/
def isLocalChar (c : Char) : Bool := isMailboxChar c || c = '.'

/-- What stands behind the mailbox that a text starts with, and behind the at sign. -/
def mailboxRest? (t : Text) : Option Text :=
  match t.dropWhile isLocalChar with
  | '@' :: rest =>
    if (Text.splitAll (· = '.') (t.takeWhile isLocalChar)).all (· ≠ []) then some rest else none
  | _ => none

theorem mailAddress?_eq (t : Text) :
    (mailAddress? t).map Prod.snd =
      (mailboxRest? t).bind fun rest => (domain? false rest).map Prod.snd := by
  have hlocal : (fun c => isMailboxChar c || decide (c = '.')) = isLocalChar := rfl
  rw [mailAddress?, mailboxRest?, hlocal]
  cases t.dropWhile isLocalChar with
  | nil => rfl
  | cons c rest =>
      by_cases hat : c = '@'
      · subst hat
        split_ifs
        · exact Option.map_map Prod.snd _ _
        · rfl
      · simp [hat]

section Mailbox

variable (hrun : ∀ c ∈ run, isMailboxChar c)
include hrun

theorem isLocalChar_of_mem : ∀ c ∈ run, isLocalChar c := fun c hc => by
  simp [isLocalChar, hrun c hc]

theorem ne_dot_of_mem : ∀ c ∈ run, decide (c = '.') = false := fun c hc =>
  decide_eq_false fun hdot => absurd (hdot ▸ hrun c hc) (by decide)

/-- A part of a mailbox ends with a dot, and the next part begins. -/
theorem mailboxRest?_dot (u : Text) :
    mailboxRest? (run ++ '.' :: u) = if run = [] then none else mailboxRest? u := by
  have hlocal := isLocalChar_of_mem hrun
  have hdot : isLocalChar '.' := by decide
  rw [mailboxRest?, List.dropWhile_append_of_pos hlocal, List.dropWhile_cons_of_pos hdot,
    List.takeWhile_append_of_pos hlocal, List.takeWhile_cons_of_pos hdot, mailboxRest?,
    Text.splitAll_eq_splitOnP,
    List.splitOnP_append_cons_of_forall_mem (ne_dot_of_mem hrun) '.' (by decide),
    ← Text.splitAll_eq_splitOnP, List.all_cons]
  by_cases hne : run = []
  · simp only [hne]
    split <;> simp
  · simp [hne]

/-- The last part of a mailbox ends with an at sign. -/
theorem mailboxRest?_at (u : Text) :
    mailboxRest? (run ++ '@' :: u) = if run = [] then none else some u := by
  have hlocal := isLocalChar_of_mem hrun
  have hat : ¬ isLocalChar '@' := by decide
  rw [mailboxRest?, List.dropWhile_append_of_pos hlocal, List.dropWhile_cons_of_neg hat,
    List.takeWhile_append_of_pos hlocal, List.takeWhile_cons_of_neg hat, List.append_nil,
    Text.splitAll_eq_splitOnP, List.splitOnP_eq_singleton (ne_dot_of_mem hrun)]
  by_cases hne : run = [] <;> simp [hne]

/-- Anything else ends what might have been a mailbox. -/
theorem mailboxRest?_other {behind : Text}
    (h : ∀ c u, behind = c :: u → ¬ isLocalChar c ∧ c ≠ '@') :
    mailboxRest? (run ++ behind) = none := by
  rw [mailboxRest?, List.dropWhile_append_of_pos (isLocalChar_of_mem hrun)]
  cases behind with
  | nil => rfl
  | cons c u =>
      obtain ⟨hc, hat⟩ := h c u rfl
      rw [List.dropWhile_cons_of_neg hc]
      split
      · next hcons => exact absurd (List.cons.inj hcons).1 hat
      · rfl

end Mailbox

/-- A part of a mailbox ends with a dot, and then it goes on, or with an at sign. -/
theorem rests_mailbox_append {behind : Text} (h : IsRun isMailboxChar run behind) :
    mailboxPattern.rests (run ++ behind) =
      if run = [] then []
      else ((one (· = '.')).rests behind).flatMap mailboxPattern.rests ++
        (one (· = '@')).rests behind := by
  have hdot : ¬ isMailboxChar '.' := by decide
  have hat : ¬ isMailboxChar '@' := by decide
  rw [mailboxPattern, rests_star_dotted hdot, h.rests_plus_one (ne_of_not_class hat),
    dottedPattern, h.rests_plus_one (ne_of_not_class hdot)]
  split_ifs <;> rfl

/-- There is one way to match a mailbox, if there is any. -/
theorem rests_mailbox (t : Text) : mailboxPattern.rests t = (mailboxRest? t).toList := by
  induction hn : t.length using Nat.strong_induction_on generalizing t with
  | _ n ih =>
      obtain ⟨run, behind, rfl, hrun⟩ := exists_isRun isMailboxChar t
      rw [rests_mailbox_append hrun]
      cases behind with
      | nil =>
          rw [mailboxRest?_other hrun.all (fun c u h => absurd h (List.cons_ne_nil c u).symm)]
          split_ifs <;> rfl
      | cons c u =>
          by_cases hdot : c = '.'
          · subst hdot
            have hlength : u.length < n := by
              rw [← hn]
              simp
              omega
            have hnext : (one (· = '.')).rests ('.' :: u) = [u] := rfl
            have hend : (one (· = '@')).rests ('.' :: u) = [] := rfl
            rw [mailboxRest?_dot hrun.all, hnext, hend, List.flatMap_singleton, List.append_nil,
              ih u.length hlength u rfl]
            split_ifs <;> rfl
          · by_cases hat : c = '@'
            · subst hat
              rw [mailboxRest?_at hrun.all]
              split_ifs <;> rfl
            · have hother : ∀ d v, c :: u = d :: v → ¬ isLocalChar d ∧ d ≠ '@' := by
                intro d v h
                obtain ⟨rfl, rfl⟩ := List.cons.inj h
                have hc := hrun.stops c u rfl
                exact ⟨by simp [isLocalChar, hc, hdot], hat⟩
              rw [mailboxRest?_other hrun.all hother]
              simp [rests_one_cons, hdot, hat]

/-! ### The domain -/

theorem head?_rests_topDomain (t : Text) :
    (topDomainPattern.rests t).head? = (topDomain? t).map Prod.snd := by
  rw [topDomainPattern, rests_seq, topDomain?]
  rcases t with _ | ⟨a, _ | ⟨b, t⟩⟩
  · rfl
  · by_cases ha : Text.isBasicLetter a
    · simp [rests, ha]
    · simp [rests, ha]
  · by_cases ha : Text.isBasicLetter a
    · by_cases hb : Text.isBasicLetter b
      · have hrest := head?_rests_atMost Text.isBasicLetter 2 t
        simp only [rests, ha, hb, if_true, List.flatMap_singleton, hrest,
          List.takeWhile_cons_of_pos]
        rw [if_neg (by simp)]
        rfl
      · simp [rests, ha, hb]
    · simp [rests, ha]

theorem domain?_append (hrun : ∀ c ∈ run, isDomainChar c) (inPart : Bool) (behind : Text) :
    (domain? inPart (run ++ behind)).map Prod.snd =
      (domain? (inPart || run ≠ []) behind).map Prod.snd := by
  induction run generalizing inPart with
  | nil => simp
  | cons c run ih =>
      obtain ⟨hc, hrun⟩ := List.forall_mem_cons.mp hrun
      have hdot : c ≠ '.' := by
        rintro rfl
        exact absurd hc (by decide)
      rw [List.cons_append, domain?, if_neg hdot, if_pos hc, Option.map_map]
      refine (ih hrun true).trans ?_
      simp

/-- A part of a domain ends with a dot, and behind it the domain goes on or its last part comes. -/
theorem rests_domain_append {behind : Text} (h : IsRun isDomainChar run behind) :
    domainPattern.rests (run ++ behind) =
      if run = [] then []
      else ((one (· = '.')).rests behind).flatMap fun u =>
        domainPattern.rests u ++ topDomainPattern.rests u := by
  have hdot : ¬ isDomainChar '.' := by decide
  have hdomain : ∀ t, domainPattern.rests t = ((dottedPattern isDomainChar).rests t).flatMap
      (seq (star (dottedPattern isDomainChar)) topDomainPattern).rests := fun t => by
    rw [domainPattern, rests_seq, plus, rests_seq, List.flatMap_assoc]
    rfl
  have hrest : (seq (star (dottedPattern isDomainChar)) topDomainPattern).rests =
      fun u => domainPattern.rests u ++ topDomainPattern.rests u := funext fun u => by
    rw [rests_star_dotted hdot, hdomain]
  rw [hdomain, dottedPattern, h.rests_plus_one (ne_of_not_class hdot), ← dottedPattern, hrest]
  split_ifs <;> rfl

/-- The domain that is read is the one that the first way to match leaves. -/
theorem head?_rests_domain (t : Text) :
    (domainPattern.rests t).head? = (domain? false t).map Prod.snd := by
  induction hn : t.length using Nat.strong_induction_on generalizing t with
  | _ n ih =>
      obtain ⟨run, behind, rfl, hrun⟩ := exists_isRun isDomainChar t
      rw [rests_domain_append hrun, domain?_append hrun.all, Bool.false_or]
      cases behind with
      | nil => split_ifs <;> rfl
      | cons c u =>
          by_cases hdot : c = '.'
          · subst hdot
            have hlength : u.length < n := by
              rw [← hn]
              simp
              omega
            have hnext : (one (· = '.')).rests ('.' :: u) = [u] := rfl
            rw [hnext, List.flatMap_singleton, domain?, if_pos rfl]
            by_cases hempty : run = []
            · simp [hempty]
            · rw [if_neg hempty, List.head?_append, ih u.length hlength u rfl,
                head?_rests_topDomain, ← Option.map_or]
              simp [hempty, Function.comp_def]
          · have hc : ¬ isDomainChar c := hrun.stops c u rfl
            rw [domain?, if_neg hdot, if_neg hc, rests_one_cons]
            simp [hdot]

/-! ### The address -/

theorem head?_rests_address (t : Text) :
    (addressPattern.rests t).head? = (mailAddress? t).map Prod.snd := by
  rw [addressPattern, rests_seq, rests_mailbox, mailAddress?_eq]
  cases mailboxRest? t with
  | none => rfl
  | some rest => rw [Option.toList_some, List.flatMap_singleton, head?_rests_domain]; rfl

/-- Behind the scheme of a mail address there is no address that begins with it. -/
theorem rests_address_of_mailScheme (h : Text.afterWord? mailScheme t = some u) :
    addressPattern.rests t = [] := by
  have hscheme : mailScheme = "mailto".toList ++ [':'] := rfl
  rw [hscheme, Text.afterWord?_append, Option.bind_eq_some_iff] at h
  obtain ⟨behind, hword, hcolon⟩ := h
  obtain ⟨w, rfl, -, hletters⟩ := Text.exists_append_of_afterWord? hword
  have hmailbox : mailboxRest? (w ++ behind) = none := by
    refine mailboxRest?_other (fun c hc => ?_) fun c rest hrest => ?_
    · obtain ⟨m, hm, hletter⟩ := hletters c hc
      have halpha : ∀ m ∈ "mailto".toList, m.isAlpha := by simp
      simp [isMailboxChar, Text.isBasicLetter_of_isLetter (halpha m hm) hletter]
    · subst hrest
      obtain ⟨hc, -⟩ := Option.ite_none_right_eq_some.mp hcolon
      rw [Text.eq_colon_of_isLetter hc]
      decide
  rw [addressPattern, rests_seq, rests_mailbox, hmailbox]
  rfl

/-- What is read as a mail address is what its pattern matches. -/
theorem emailMatch?_eq_emailAt? (t : Text) : emailMatch? t = emailAt? t := by
  have hrests : emailRests? t =
      (mailAddress? (withoutMailScheme t)).map fun (_, rest) => (withoutMailScheme t, rest) := by
    have hfirst : ∀ u, ((addressPattern.rests u).map fun rest => (u, rest)).head? =
        (mailAddress? u).map fun (_, rest) => (u, rest) := fun u => by
      rw [List.head?_map, head?_rests_address, Option.map_map]
      rfl
    rw [emailRests?, rests_opt, rests_word, withoutMailScheme]
    cases hscheme : Text.afterWord? mailScheme t with
    | none =>
        rw [Option.toList_none, List.nil_append, List.flatMap_singleton, hfirst]
        rfl
    | some u =>
        rw [Option.toList_some, List.flatMap_append, List.flatMap_singleton,
          List.flatMap_singleton, rests_address_of_mailScheme hscheme, List.map_nil,
          List.append_nil, hfirst]
        rfl
  rw [emailMatch?, hrests, emailAt?, Option.map_map]
  cases haddress : mailAddress? (withoutMailScheme t) with
  | none => rfl
  | some found =>
      obtain ⟨address, rest⟩ := found
      obtain ⟨happend, -⟩ := append_of_mailAddress? haddress
      have htake : (withoutMailScheme t).take ((withoutMailScheme t).length - rest.length) =
          address := by
        rw [← happend]
        simp
      simp [htake]

end Markup.Segment

end Commentary
