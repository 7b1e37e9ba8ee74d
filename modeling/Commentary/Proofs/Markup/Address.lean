import Commentary.Proofs.Comment.Verbatim
import Commentary.Proofs.Markup.Source

/-!
# What inline elements hold

An inline element carries texts: what it shows, and the address and the name of a link. All of them
are parts of the text that it comes from, an underscore that stands for a space apart. A mail
address holds an at sign and a URL a colon, so a text without these has links to symbols alone.
-/

namespace Commentary

open Markup

namespace Text

/-- No letter is taken for a colon. -/
theorem eq_colon_of_isLetter {c : Char} (h : isLetter ':' c) : c = ':' := by
  have hlower : c.toLower = ':' := by simpa [isLetter] using h
  unfold Char.toLower at hlower
  split at hlower
  · next hupper =>
      have hvalue : (c.val + ('a'.val - 'A'.val)).toNat = 58 :=
        congrArg (fun d : Char => d.val.toNat) hlower
      have hbounds : 65 ≤ c.val.toNat ∧ c.val.toNat ≤ 90 := hupper
      have hdistance : ('a'.val - 'A'.val).toNat = 32 := rfl
      rw [UInt32.toNat_add] at hvalue
      omega
  · exact hlower

theorem exists_colon_append_of_afterWord? {word t rest : Text} (hword : ':' ∈ word)
    (h : afterWord? word t = some rest) : ∃ w, t = w ++ rest ∧ ':' ∈ w := by
  induction word generalizing t with
  | nil => cases hword
  | cons m word ih =>
      cases t with
      | nil => cases h
      | cons c t =>
          obtain ⟨hc, htail⟩ := Option.ite_none_right_eq_some.mp h
          rcases List.mem_cons.mp hword with rfl | hword
          · obtain ⟨w, rfl⟩ := suffix_of_afterWord? htail
            exact ⟨c :: w, rfl, by simp [eq_colon_of_isLetter hc]⟩
          · obtain ⟨w, rfl, hcolon⟩ := ih hword htail
            exact ⟨c :: w, rfl, List.mem_cons_of_mem c hcolon⟩

end Text

namespace Markup

/-! ## Addresses -/

namespace Segment

variable {t rest d address : Text}

theorem append_of_topDomain? (h : topDomain? t = some (d, rest)) : d ++ rest = t := by
  obtain ⟨-, h⟩ := Option.ite_none_left_eq_some.mp h
  cases h
  have hprefix : (t.takeWhile Text.isBasicLetter).take 4 <+: t :=
    (List.take_prefix _ _).trans (List.takeWhile_prefix _)
  exact List.prefix_iff_eq_append.mp hprefix

theorem append_of_domain? {inPart : Bool} (h : domain? inPart t = some (d, rest)) :
    d ++ rest = t := by
  induction t generalizing inPart d with
  | nil => simp [domain?] at h
  | cons c t ih =>
      rw [domain?] at h
      split_ifs at h
      · obtain ⟨⟨d', rest'⟩, hor, heq⟩ := Option.map_eq_some_iff.mp h
        cases heq
        rcases Option.or_eq_some_iff.mp hor with hdomain | ⟨-, htop⟩
        · exact congrArg (c :: ·) (ih hdomain)
        · exact congrArg (c :: ·) (append_of_topDomain? htop)
      · obtain ⟨⟨d', rest'⟩, hdomain, heq⟩ := Option.map_eq_some_iff.mp h
        cases heq
        exact congrArg (c :: ·) (ih hdomain)

theorem append_of_mailAddress? (h : mailAddress? t = some (address, rest)) :
    address ++ rest = t ∧ '@' ∈ address := by
  rw [mailAddress?] at h
  split at h
  · next tail htail =>
      obtain ⟨-, h⟩ := Option.ite_none_right_eq_some.mp h
      obtain ⟨⟨d, rest'⟩, hdomain, heq⟩ := Option.map_eq_some_iff.mp h
      cases heq
      refine ⟨?_, by simp⟩
      rw [List.append_assoc, List.cons_append, append_of_domain? hdomain, ← htail]
      exact List.takeWhile_append_dropWhile
  · cases h

theorem suffix_withoutMailScheme (t : Text) : withoutMailScheme t <:+ t := by
  rw [withoutMailScheme]
  cases hword : Text.afterWord? mailScheme t with
  | none => exact List.suffix_rfl
  | some body => exact suffix_of_afterWord? hword

/-- A mail address is a part of what stands in the text and holds an at sign, and a URL holds a
colon. -/
def Proper : Segment → Prop
  | text _ => True
  | email written address => address ⊆ written ∧ '@' ∈ address
  | url address => ':' ∈ address

theorem proper_of_emailAt? {s : Segment} (h : emailAt? t = some (s, rest)) : s.Proper := by
  have hwritten := written_append_of_emailAt? h
  obtain ⟨⟨address, rest'⟩, haddress, heq⟩ := Option.map_eq_some_iff.mp h
  cases heq
  obtain ⟨happend, hat⟩ := append_of_mailAddress? haddress
  obtain ⟨scheme, hscheme⟩ := suffix_withoutMailScheme t
  rw [← happend, ← List.append_assoc] at hscheme
  have hsame := List.append_cancel_right (hscheme.trans hwritten.symm)
  refine ⟨?_, hat⟩
  have hpart : address ⊆ scheme ++ address := List.subset_append_right scheme address
  rwa [hsame] at hpart

theorem proper_of_urlAt? {s : Segment} (h : urlAt? t = some (s, rest)) : s.Proper := by
  have hwritten := written_append_of_urlAt? h
  rw [urlAt?] at h
  split at h
  · cases h
  · next body hbody =>
      obtain ⟨scheme, hmem, hscheme⟩ := List.exists_of_findSome?_eq_some hbody
      have hcolon : ∀ scheme ∈ urlSchemes, ':' ∈ scheme := by decide
      obtain ⟨w, ht, hw⟩ := Text.exists_colon_append_of_afterWord? (hcolon scheme hmem) hscheme
      obtain ⟨-, h⟩ := Option.ite_none_left_eq_some.mp h
      simp only [Option.some.injEq, Prod.mk.injEq] at h
      obtain ⟨rfl, rfl⟩ := h
      -- The rest lies behind the scheme, so the scheme lies in what is taken for the URL.
      refine (List.prefix_of_prefix_length_le ⟨body, ht.symm⟩ (List.take_prefix _ _) ?_ :
        w <+: _).subset hw
      simp [ht]
      omega

theorem proper_of_firstAt {at? : Option Char → Text → Option (Segment × Text)}
    (hat : ∀ before t s rest, at? before t = some (s, rest) → s.Proper) {before : Option Char}
    {f : Found} (h : firstAt at? before t = some f) : f.segment.Proper := by
  induction t generalizing before f with
  | nil => cases h
  | cons c t ih =>
      rw [firstAt] at h
      split at h
      · next hfound =>
          cases h
          exact hat _ _ _ _ hfound
      · obtain ⟨g, hg, rfl⟩ := Option.map_eq_some_iff.mp h
        have hproper : g.segment.Proper := ih hg
        exact hproper

theorem proper_of_mem_cut {fuel : Nat} {before : Option Char} {s : Segment}
    (h : s ∈ cut fuel before t) : s.Proper := by
  have hplain : ∀ t : Text, s ∈ (if t = [] then [] else [text t]) → s.Proper := by
    intro t hs
    split_ifs at hs
    · cases hs
    · rw [List.mem_singleton.mp hs]
      trivial
  induction fuel generalizing before t with
  | zero => exact hplain t h
  | succ fuel ih =>
      rw [cut.eq_def] at h
      cases hf : nearer (firstAt acceptedEmail? before t) (firstAt acceptedUrl? before t) with
      | none =>
          rw [hf] at h
          exact hplain t h
      | some f =>
          rw [hf] at h
          dsimp only at h
          rcases List.mem_append.mp h with h | h
          · exact hplain f.before h
          · rcases List.mem_cons.mp h with rfl | h
            · rcases nearer_eq_some hf with hfound | hfound
              · exact proper_of_firstAt (fun _ _ _ _ h =>
                  proper_of_emailAt? (Option.filter_eq_some_iff.mp h).1) hfound
              · exact proper_of_firstAt (fun _ _ _ _ h =>
                  proper_of_urlAt? (Option.filter_eq_some_iff.mp h).1) hfound
            · exact ih h

end Segment

/-! ## Links -/

namespace Target

/-- The address and the name of a link are parts of a text, a mail address holds an at sign, and a
URL holds a colon. -/
def DrawnFrom (t : Text) : Target → Prop
  | email address name => address ⊆ t ∧ name ⊆ t ∧ '@' ∈ address
  | url address name => address ⊆ t ∧ name ⊆ t ∧ ':' ∈ address
  | symbol name => name ⊆ t

variable {s t address name : Text}

theorem DrawnFrom.mono {target : Target} (h : target.DrawnFrom s) (hs : s ⊆ t) :
    target.DrawnFrom t := by
  cases target with
  | email address name => exact ⟨List.Subset.trans h.1 hs, List.Subset.trans h.2.1 hs, h.2.2⟩
  | url address name => exact ⟨List.Subset.trans h.1 hs, List.Subset.trans h.2.1 hs, h.2.2⟩
  | symbol name => exact List.Subset.trans h hs

theorem subset_of_wholeEmail? (h : wholeEmail? t = some address) :
    address ⊆ t ∧ '@' ∈ address := by
  rw [wholeEmail?] at h
  split at h
  · next found hfound =>
      cases h
      obtain ⟨happend, hat⟩ := Segment.append_of_mailAddress? hfound
      rw [List.append_nil] at happend
      rw [happend]
      exact ⟨(Segment.suffix_withoutMailScheme t).subset, happend ▸ hat⟩
  · cases h

theorem colon_mem_of_afterScheme? {rest : Text} (h : afterScheme? t = some rest) : ':' ∈ t := by
  rw [afterScheme?] at h
  split at h
  · next hdrop =>
      have hmem : ':' ∈ t.dropWhile Text.isBasicLetter := by simp [hdrop]
      exact (List.dropWhile_suffix _).subset hmem
  · cases h

theorem subset_of_wholeUrl? (h : wholeUrl? t = some address) : address ⊆ t ∧ ':' ∈ address := by
  rw [wholeUrl?] at h
  split at h
  · next hscheme =>
      obtain ⟨-, h⟩ := Option.ite_none_left_eq_some.mp h
      cases h
      exact ⟨List.Subset.refl t, colon_mem_of_afterScheme? hscheme⟩
  · cases h

theorem subset_of_named? {address? : Text → Option Text} {c : Char}
    (haddress : ∀ {t address}, address? t = some address → address ⊆ t ∧ c ∈ address)
    (h : named? address? t = some (name, address)) : address ⊆ t ∧ name ⊆ t ∧ c ∈ address := by
  induction t generalizing name with
  | nil => cases h
  | cons d t ih =>
      rw [named?] at h
      obtain ⟨-, h⟩ := Option.ite_none_left_eq_some.mp h
      split at h
      · next found hfound =>
          cases h
          obtain ⟨rest, hrest, hfound⟩ := Option.bind_eq_some_iff.mp hfound
          obtain ⟨hsubset, hmem⟩ := haddress hfound
          have htail : address ⊆ t := List.Subset.trans hsubset (suffix_of_afterWord? hrest).subset
          exact ⟨List.subset_cons_of_subset d htail, by simp, hmem⟩
      · obtain ⟨⟨name', address'⟩, hnamed, heq⟩ := Option.map_eq_some_iff.mp h
        cases heq
        obtain ⟨hsubset, hname, hmem⟩ := ih hnamed
        exact ⟨List.subset_cons_of_subset d hsubset, List.cons_subset_cons d hname, hmem⟩

/-- Where a link leads to is read off its text. -/
theorem drawnFrom_ofText (t : Text) : (ofText t).DrawnFrom t := by
  rw [ofText]
  split
  · next address h =>
      obtain ⟨hsubset, hat⟩ := subset_of_wholeEmail? h
      exact ⟨hsubset, hsubset, hat⟩
  · split
    · next name address h => exact subset_of_named? subset_of_wholeEmail? h
    · split_ifs with hscheme
      · obtain ⟨rest, hrest⟩ := Option.isSome_iff_exists.mp hscheme
        exact ⟨List.Subset.refl t, List.Subset.refl t, colon_mem_of_afterScheme? hrest⟩
      · split
        · next name address h => exact subset_of_named? subset_of_wholeUrl? h
        · exact List.Subset.refl t

end Target

/-! ## Pieces and elements -/

namespace Piece

/-- An address in the text is an address. -/
def Proper : Piece → Prop
  | email written address => address ⊆ written ∧ '@' ∈ address
  | url address => ':' ∈ address
  | _ => True

theorem proper_of_mem_ofPlain {t : Text} {p : Piece} (h : p ∈ ofPlain t) : p.Proper := by
  induction t generalizing p with
  | nil => cases h
  | cons c t ih =>
      rw [ofPlain] at h
      split at h
      · rcases List.mem_cons.mp h with rfl | h
        · trivial
        · exact ih h
      · next run pieces _ hpieces =>
          rcases List.mem_cons.mp h with rfl | h
          · trivial
          · exact ih (hpieces ▸ List.mem_cons_of_mem _ h)
      · rcases List.mem_cons.mp h with rfl | h
        · trivial
        · exact ih h

theorem proper_of_mem_ofText {t : Text} {p : Piece} (h : p ∈ ofText t) : p.Proper := by
  obtain ⟨segment, hsegment, hp⟩ := List.mem_flatMap.mp h
  have hproper : segment.Proper := Segment.proper_of_mem_cut hsegment
  cases segment with
  | text t => exact proper_of_mem_ofPlain hp
  | email written address =>
      rw [List.mem_singleton.mp hp]
      exact hproper
  | url address =>
      rw [List.mem_singleton.mp hp]
      exact hproper

theorem written_subset_of_mem_ofText {t : Text} {p : Piece} (h : p ∈ ofText t) :
    p.written ⊆ t := by
  intro c hc
  rw [← flatMap_written_ofText t]
  exact List.mem_flatMap.mpr ⟨p, h, hc⟩

end Piece

namespace Inline

/-- The texts that an element carries are parts of a text, or a space in the place of an
underscore. -/
def DrawnFrom (t : Text) : Inline → Prop
  | text s => s ⊆ ' ' :: t
  | opens _ => True
  | closes _ => True
  | link target => target.DrawnFrom t

variable {t : Text} {i : Inline}

theorem drawnFrom_ofStar (spans : Spans) (before : Option Piece) (rest : List Piece)
    (h : '*' ∈ t) : (ofStar spans before rest).1.DrawnFrom t := by
  rw [ofStar]
  split_ifs
  · trivial
  · trivial
  · simp [DrawnFrom, h]

theorem drawnFrom_ofUnderscore (spans : Spans) (before : Option Piece) (rest : List Piece)
    (h : '_' ∈ t) : (ofUnderscore spans before rest).1.DrawnFrom t := by
  rw [ofUnderscore]
  split
  · trivial
  · split_ifs
    · trivial
    · simp [DrawnFrom]
    · simp [DrawnFrom, h]

theorem drawnFrom_ofPiecesFrom {spans : Spans} {before : Option Piece} {skip : Nat}
    {pieces : List Piece} (hproper : ∀ p ∈ pieces, p.Proper)
    (hwritten : ∀ p ∈ pieces, p.written ⊆ t) (h : i ∈ ofPiecesFrom spans before skip pieces) :
    i.DrawnFrom t := by
  induction pieces generalizing spans before skip with
  | nil => cases h
  | cons p rest ih =>
      obtain ⟨hp, hrest⟩ := List.forall_mem_cons.mp hproper
      obtain ⟨hpt, hrestt⟩ := List.forall_mem_cons.mp hwritten
      have hlater : ∀ {spans before skip}, i ∈ ofPiecesFrom spans before skip rest →
          i.DrawnFrom t := fun h => ih hrest hrestt h
      have hcons : ∀ {j : Inline} {spans before skip},
          i ∈ j :: ofPiecesFrom spans before skip rest → j.DrawnFrom t → i.DrawnFrom t := by
        intro j spans before skip h hj
        rcases List.mem_cons.mp h with rfl | h
        · exact hj
        · exact hlater h
      cases skip with
      | succ skip => exact hlater h
      | zero =>
          cases p with
          | text s => exact hcons h (List.subset_cons_of_subset _ hpt)
          | email written address =>
              have haddress : address ⊆ t := List.Subset.trans hp.1 hpt
              exact hcons h ⟨haddress, haddress, hp.2⟩
          | url address => exact hcons h ⟨hpt, hpt, hp⟩
          | mark m =>
              have hm : m.char ∈ t := hpt (List.mem_singleton_self _)
              cases m with
              | greater => exact hcons h (by simp [DrawnFrom, show '>' ∈ t from hm])
              | star => exact hcons h (drawnFrom_ofStar spans before rest hm)
              | underscore => exact hcons h (drawnFrom_ofUnderscore spans before rest hm)
              | less =>
                  rw [ofPiecesFrom] at h
                  split at h
                  · next inner hinner =>
                      refine hcons h ((Target.drawnFrom_ofText _).mono fun c hc => ?_)
                      obtain ⟨tail, rfl⟩ := eq_append_of_openedLink? hinner
                      obtain ⟨q, hq, hcq⟩ := List.mem_flatMap.mp hc
                      exact hrestt q (List.mem_append_left _ hq) hcq
                  · exact hcons h (by simp [DrawnFrom, show '<' ∈ t from hm])

/-- The elements of a text carry parts of it. -/
theorem drawnFrom_of_mem_ofText (h : i ∈ ofText t) : i.DrawnFrom t :=
  drawnFrom_ofPiecesFrom (fun _ => Piece.proper_of_mem_ofText)
    (fun _ => Piece.written_subset_of_mem_ofText) h

end Inline

end Markup

end Commentary
