import Commentary.Proofs.Markup.Entity
import Mathlib.Data.List.Infix

/-!
# Entities one kind after the other

Entities may be read by replacing all of one kind, then all of the next kind in what that gives.
The first character of an entity stands nowhere else in it, so no two of them overlap, and what is
put in for one has no character of another: no entity of a later kind is made or broken. An
ampersand is put in last. So the kinds one after the other give what one reading of the text gives,
and an escaped text is read back.
-/

namespace Commentary

/-! ## Replacing a mark everywhere -/

namespace Text

/-- A text with `word` for every occurrence of `mark`, from left to right and without overlap.
`skip` counts the characters to come of an occurrence. -/
def replaceFrom (mark word : Text) (skip : Nat) : Text → Text
  | [] => []
  | c :: t =>
    match skip with
    | skip + 1 => replaceFrom mark word skip t
    | 0 =>
      if mark.isPrefixOf (c :: t) then word ++ replaceFrom mark word (mark.length - 1) t
      else c :: replaceFrom mark word 0 t

/-- A text with `word` for every occurrence of `mark`. -/
def replaceAll (mark word t : Text) : Text := replaceFrom mark word 0 t

variable {mark word name s t : Text} {m c : Char}

theorem replaceFrom_append (mark word s t : Text) :
    replaceFrom mark word s.length (s ++ t) = replaceAll mark word t := by
  induction s with
  | nil => rfl
  | cons c s ih => exact ih

theorem replaceAll_append (word name t : Text) (m : Char) :
    replaceAll (m :: name) word (m :: name ++ t) = word ++ replaceAll (m :: name) word t := by
  have hprefix : (m :: name).isPrefixOf (m :: (name ++ t)) :=
    List.isPrefixOf_iff_prefix.mpr (List.prefix_append (m :: name) t)
  rw [replaceAll, List.cons_append, replaceFrom, if_pos hprefix]
  exact congrArg (word ++ ·) (replaceFrom_append _ _ name t)

theorem replaceAll_cons (h : ¬ mark <+: c :: t) :
    replaceAll mark word (c :: t) = c :: replaceAll mark word t :=
  if_neg fun hprefix => h (List.isPrefixOf_iff_prefix.mp hprefix)

theorem replaceAll_cons_of_ne (h : c ≠ m) :
    replaceAll (m :: name) word (c :: t) = c :: replaceAll (m :: name) word t :=
  replaceAll_cons fun hprefix => h (List.cons_prefix_cons.mp hprefix).1.symm

/-- A text in which the first character of the mark does not stand is left as it is. -/
theorem replaceAll_append_of_not_mem (h : m ∉ s) :
    replaceAll (m :: name) word (s ++ t) = s ++ replaceAll (m :: name) word t := by
  induction s with
  | nil => rfl
  | cons c s ih =>
      obtain ⟨hc, hs⟩ := not_or.mp (mt List.mem_cons.mpr h)
      rw [List.cons_append, replaceAll_cons_of_ne (Ne.symm hc), ih hs, List.cons_append]

/-- A replacement brings no word to a place and takes none away, if neither the mark nor what is put
in for it has a character of the word at its start. -/
theorem prefix_replaceAll_iff {d : Char} (hm : m ∉ s) (hd : d ∉ s) :
    s <+: replaceAll (m :: name) (d :: word) t ↔ s <+: t := by
  induction s generalizing t with
  | nil => simp
  | cons e s ih =>
      obtain ⟨hem, hm⟩ := not_or.mp (mt List.mem_cons.mpr hm)
      obtain ⟨hed, hd⟩ := not_or.mp (mt List.mem_cons.mpr hd)
      cases t with
      | nil => rfl
      | cons c t =>
          by_cases hmark : m :: name <+: c :: t
          · -- Neither the mark nor the word for it starts as the word that is looked for.
            obtain ⟨rest, hrest⟩ := hmark
            rw [← hrest, replaceAll_append]
            simp [Ne.symm hem, Ne.symm hed]
          · rw [replaceAll_cons hmark, List.cons_prefix_cons, List.cons_prefix_cons, ih hm hd]

end Text

namespace Markup

/-! ## Entities of one kind -/

/-- The entity of a name as it is written. -/
def entity (name : Text) : Text := '&' :: (name ++ [';'])

/-- A text with a character for every entity of a name. -/
def replaceEntity (name : Text) (c : Char) (t : Text) : Text := Text.replaceAll (entity name) [c] t

section ReplaceEntity

variable {name other s t : Text} {c d : Char}

theorem replaceEntity_cons (h : d ≠ '&') :
    replaceEntity name c (d :: t) = d :: replaceEntity name c t :=
  Text.replaceAll_cons_of_ne h

theorem replaceEntity_ampersand (h : ¬ name ++ [';'] <+: t) :
    replaceEntity name c ('&' :: t) = '&' :: replaceEntity name c t :=
  Text.replaceAll_cons fun hprefix => h (List.cons_prefix_cons.mp hprefix).2

theorem replaceEntity_entity_append (name t : Text) (c : Char) :
    replaceEntity name c (entity name ++ t) = c :: replaceEntity name c t :=
  Text.replaceAll_append [c] (name ++ [';']) t '&'

/-- An entity of another kind is passed over. -/
theorem replaceEntity_entity_append_of_ne (hamp : '&' ∉ other ++ [';'])
    (h : ¬ name ++ [';'] <+: other ++ [';'] ++ t) :
    replaceEntity name c (entity other ++ t) = entity other ++ replaceEntity name c t := by
  rw [entity, List.cons_append, replaceEntity_ampersand h, List.cons_append]
  exact congrArg ('&' :: ·) (Text.replaceAll_append_of_not_mem hamp)

/-- What an entity stands for makes and breaks no entity of another kind. -/
theorem prefix_replaceEntity_iff (hamp : '&' ∉ s) (hc : c ∉ s) :
    s <+: replaceEntity name c t ↔ s <+: t :=
  Text.prefix_replaceAll_iff hamp hc

end ReplaceEntity

/-! ## All kinds -/

/-- A text with the entities of each kind replaced, one kind after the other. -/
def replaceEntities (t : Text) : Text :=
  replaceEntity ['a', 'm', 'p'] '&' <| replaceEntity ['q', 'u', 'o', 't'] '"' <|
    replaceEntity ['g', 't'] '>' <| replaceEntity ['l', 't'] '<' t

/-- A text with its entities read one kind after the other, if it can hold any. -/
def unescapeByKind (t : Text) : Text := if '&' ∈ t then replaceEntities t else t

theorem replaceEntities_cons {c : Char} (h : c ≠ '&') (t : Text) :
    replaceEntities (c :: t) = c :: replaceEntities t := by
  simp only [replaceEntities, replaceEntity_cons h]

/-- An ampersand that begins no entity stays, whatever the entities behind it stand for. -/
theorem replaceEntities_ampersand {t : Text} (hless : ¬ ['l', 't', ';'] <+: t)
    (hgreater : ¬ ['g', 't', ';'] <+: t) (hquote : ¬ ['q', 'u', 'o', 't', ';'] <+: t)
    (hamp : ¬ ['a', 'm', 'p', ';'] <+: t) :
    replaceEntities ('&' :: t) = '&' :: replaceEntities t := by
  have hgreater' : ¬ ['g', 't', ';'] <+: replaceEntity ['l', 't'] '<' t := by
    rwa [prefix_replaceEntity_iff (by decide) (by decide)]
  have hquote' : ¬ ['q', 'u', 'o', 't', ';'] <+:
      replaceEntity ['g', 't'] '>' (replaceEntity ['l', 't'] '<' t) := by
    rwa [prefix_replaceEntity_iff (by decide) (by decide),
      prefix_replaceEntity_iff (by decide) (by decide)]
  have hamp' : ¬ ['a', 'm', 'p', ';'] <+: replaceEntity ['q', 'u', 'o', 't'] '"'
      (replaceEntity ['g', 't'] '>' (replaceEntity ['l', 't'] '<' t)) := by
    rwa [prefix_replaceEntity_iff (by decide) (by decide),
      prefix_replaceEntity_iff (by decide) (by decide),
      prefix_replaceEntity_iff (by decide) (by decide)]
  rw [replaceEntities, replaceEntity_ampersand hless, replaceEntity_ampersand hgreater',
    replaceEntity_ampersand hquote', replaceEntity_ampersand hamp']
  rfl

section Kinds

variable (t : Text)

/-! An entity is passed over until its kind comes, and its character is passed over from there. -/

theorem replaceEntities_less :
    replaceEntities (entity ['l', 't'] ++ t) = '<' :: replaceEntities t := by
  rw [replaceEntities, replaceEntity_entity_append, replaceEntity_cons (by decide),
    replaceEntity_cons (by decide), replaceEntity_cons (by decide)]
  rfl

theorem replaceEntities_greater :
    replaceEntities (entity ['g', 't'] ++ t) = '>' :: replaceEntities t := by
  rw [replaceEntities, replaceEntity_entity_append_of_ne (by decide) (by simp),
    replaceEntity_entity_append, replaceEntity_cons (by decide), replaceEntity_cons (by decide)]
  rfl

theorem replaceEntities_quote :
    replaceEntities (entity ['q', 'u', 'o', 't'] ++ t) = '"' :: replaceEntities t := by
  rw [replaceEntities, replaceEntity_entity_append_of_ne (by decide) (by simp),
    replaceEntity_entity_append_of_ne (by decide) (by simp), replaceEntity_entity_append,
    replaceEntity_cons (by decide)]
  rfl

theorem replaceEntities_amp :
    replaceEntities (entity ['a', 'm', 'p'] ++ t) = '&' :: replaceEntities t := by
  rw [replaceEntities, replaceEntity_entity_append_of_ne (by decide) (by simp),
    replaceEntity_entity_append_of_ne (by decide) (by simp),
    replaceEntity_entity_append_of_ne (by decide) (by simp), replaceEntity_entity_append]
  rfl

end Kinds

/-- One kind after the other gives what one reading of the text gives. -/
theorem replaceEntities_eq_unescape (t : Text) : replaceEntities t = unescape t := by
  fun_induction unescape t with
  | case1 t ih => exact (replaceEntities_less t).trans (congrArg ('<' :: ·) ih)
  | case2 t ih => exact (replaceEntities_greater t).trans (congrArg ('>' :: ·) ih)
  | case3 t ih => exact (replaceEntities_quote t).trans (congrArg ('"' :: ·) ih)
  | case4 t ih => exact (replaceEntities_amp t).trans (congrArg ('&' :: ·) ih)
  | case5 c t hless hgreater hquote hamp ih =>
      rw [← ih]
      by_cases hc : c = '&'
      · subst hc
        refine replaceEntities_ampersand ?_ ?_ ?_ ?_
        · rintro ⟨u, rfl⟩
          exact hless u rfl rfl
        · rintro ⟨u, rfl⟩
          exact hgreater u rfl rfl
        · rintro ⟨u, rfl⟩
          exact hquote u rfl rfl
        · rintro ⟨u, rfl⟩
          exact hamp u rfl rfl
      · exact replaceEntities_cons hc t
  | case6 => rfl

theorem replaceEntities_eq_self {t : Text} (h : '&' ∉ t) : replaceEntities t = t := by
  have hsame : ∀ (name : Text) (c : Char), replaceEntity name c t = t := by
    intro name c
    have happend : replaceEntity name c (t ++ []) = t ++ replaceEntity name c [] :=
      Text.replaceAll_append_of_not_mem h
    rw [List.append_nil] at happend
    exact happend.trans (List.append_nil t)
  rw [replaceEntities, hsame, hsame, hsame, hsame]

theorem unescapeByKind_eq_unescape (t : Text) : unescapeByKind t = unescape t := by
  rw [unescapeByKind, ← replaceEntities_eq_unescape]
  split_ifs with h
  · rfl
  · exact (replaceEntities_eq_self h).symm

/-- Whatever a text holds, entities included, it comes back from its escaped form, whether that is
read at one go or one kind of entity after the other. So no two texts have the same escaped form,
and none of these holds a mark of a tag or of an attribute. -/
theorem escape_faithful (t : Text) :
    unescape (escape t) = t ∧ unescapeByKind (escape t) = t ∧
      (∀ s, escape s = escape t → s = t) ∧ ∀ c ∈ escape t, ¬ IsMarkup c := by
  refine ⟨unescape_escape t, ?_, fun s hs => ?_, fun c hc => not_isMarkup_of_mem_escape hc⟩
  · rw [unescapeByKind_eq_unescape, unescape_escape]
  · rw [← unescape_escape s, hs, unescape_escape]

/-- The entity for an ampersand is read, and what it gives is not read again. -/
example : unescapeByKind "&amp;lt;".toList = "&lt;".toList := by decide

end Markup

end Commentary
