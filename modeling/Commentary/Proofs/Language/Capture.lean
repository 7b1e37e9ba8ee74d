import Commentary.Language.Prototype
import Commentary.Proofs.Text.Words

/-!
# Where a prototype ends

A prototype is captured line by line: the depth of brackets is carried from line to line, and blank
lines are passed over. Joined into one text, the same lines have one first place where an ender
stands outside of brackets. The prototype is the text before that place, white space apart.
-/

namespace Commentary.Prototype

open Text

/-! ## Joined code -/

/-- A line of code as it is joined with the next one: its text, and whether it goes on there. -/
structure Piece where
  text : Text
  isContinued : Bool
  deriving DecidableEq

namespace Piece

/-- A line without white space at its end. If it ends in the mark that continues it, it goes on
without the mark. An empty mark continues nothing. -/
def ofLine (extender : Option Text) (line : Text) : Piece :=
  let t := trimBlankEnd line
  match extender with
  | none => ⟨t, false⟩
  | some mark =>
    if mark ≠ [] ∧ mark <:+ t then ⟨t.take (t.length - mark.length), true⟩ else ⟨t, false⟩

/-- Whether the piece comes from a blank line that is not continued. -/
def isEmpty (p : Piece) : Bool := isAllBlank p.text && !p.isContinued

/-- The character that joins the piece with the next one. -/
def joint (p : Piece) : Char := if p.isContinued then ' ' else lineFeed

end Piece

/-- The code of some pieces, with a space behind a piece that is continued and a line break behind
any other. -/
def joined (pieces : List Piece) : Text := pieces.flatMap fun p => p.text ++ [p.joint]

/-- The depth of brackets at a place of a text. -/
def depthAt (depth : Nat) (t : Text) (n : Nat) : Nat := (t.take n).foldl depthAfter depth

/-- An ender stands at a place of the joined code: a symbol inside of a piece, or a line break. -/
inductive EnderAt (enders : List PrototypeEnder) (pieces : List Piece) : Nat → Prop where
  | symbol (before behind : List Piece) {p : Piece} {start mark rest : Text}
      (hpieces : pieces = before ++ p :: behind) (htext : p.text = start ++ (mark ++ rest))
      (hmark : .symbol mark ∈ enders) (hne : mark ≠ []) :
      EnderAt enders pieces ((joined before).length + start.length)
  | lineBreak {n : Nat} (hender : .lineBreak ∈ enders)
      (hbreak : (joined pieces)[n]? = some lineFeed) : EnderAt enders pieces n

/-- An ender stands at a place of the joined code, outside of brackets. -/
def EndsAt (enders : List PrototypeEnder) (depth : Nat) (pieces : List Piece) (n : Nat) : Prop :=
  depthAt depth (joined pieces) n = 0 ∧ EnderAt enders pieces n

/-- The first place with a property, or the end if there is none. -/
structure IsFirst (P : Nat → Prop) (stop n : Nat) : Prop where
  le_stop : n ≤ stop
  before : ∀ m < n, ¬ P m
  here : n < stop → P n

theorem IsFirst.shift {P Q : Nat → Prop} {start stop n : Nat} (h : IsFirst Q stop n)
    (hP : ∀ m, P m ↔ ∃ k, m = start + k ∧ Q k) : IsFirst P (start + stop) (start + n) where
  le_stop := Nat.add_le_add_left h.le_stop start
  before m hm hPm := by
    obtain ⟨k, rfl, hQ⟩ := (hP m).mp hPm
    exact h.before k (Nat.lt_of_add_lt_add_left hm) hQ
  here hn := (hP _).mpr ⟨n, rfl, h.here (Nat.lt_of_add_lt_add_left hn)⟩

/-! ## The first ender of a line -/

/-- One of the symbols stands at a place of a text. -/
def SymbolAt (symbols : List Text) (t : Text) (n : Nat) : Prop :=
  ∃ start mark rest, t = start ++ (mark ++ rest) ∧ mark ∈ symbols ∧ start.length = n

variable {symbols : List Text} {depth : Nat} {t : Text} {n : Nat}

theorem startsWithAny_iff : startsWithAny symbols t ↔ SymbolAt symbols t 0 := by
  simp only [startsWithAny, List.any_eq_true, SymbolAt, Option.isSome_iff_exists]
  constructor
  · rintro ⟨mark, hmark, rest, hrest⟩
    exact ⟨[], mark, rest, (eq_append_of_afterStart? hrest :), hmark, rfl⟩
  · rintro ⟨start, mark, rest, rfl, hmark, hstart⟩
    obtain rfl := List.eq_nil_of_length_eq_zero hstart
    exact ⟨mark, hmark, rest, afterStart?_append mark rest⟩

theorem symbolAt_cons_succ {c : Char} :
    SymbolAt symbols (c :: t) (n + 1) ↔ SymbolAt symbols t n := by
  constructor
  · rintro ⟨start, mark, rest, heq, hmark, hlength⟩
    cases start with
    | nil => cases hlength
    | cons d start =>
        obtain ⟨-, rfl⟩ := List.cons_eq_cons.mp heq
        exact ⟨start, mark, rest, rfl, hmark, Nat.succ.inj hlength⟩
  · rintro ⟨start, mark, rest, rfl, hmark, rfl⟩
    exact ⟨c :: start, mark, rest, rfl, hmark, rfl⟩

theorem SymbolAt.lt_length (hsymbols : ∀ mark ∈ symbols, mark ≠ []) (h : SymbolAt symbols t n) :
    n < t.length := by
  obtain ⟨start, mark, rest, rfl, hmark, rfl⟩ := h
  have := List.length_pos_iff.mpr (hsymbols mark hmark)
  simp only [List.length_append]
  omega

theorem depthAt_cons_succ {c : Char} :
    depthAt depth (c :: t) (n + 1) = depthAt (depthAfter depth c) t n := rfl

/-- One of the symbols stands at a place of a line, outside of brackets. -/
def StopsAt (symbols : List Text) (depth : Nat) (t : Text) (n : Nat) : Prop :=
  depthAt depth t n = 0 ∧ SymbolAt symbols t n

theorem stopsAt_cons_succ {c : Char} :
    StopsAt symbols depth (c :: t) (n + 1) ↔ StopsAt symbols (depthAfter depth c) t n := by
  rw [StopsAt, StopsAt, depthAt_cons_succ, symbolAt_cons_succ]

/-- The search in one line finds the first place where a symbol stands outside of brackets. -/
theorem beforeEnder?_eq_some {before : Text} (h : beforeEnder? symbols depth t = some before) :
    ∃ n, before = t.take n ∧ StopsAt symbols depth t n ∧ ∀ m < n, ¬ StopsAt symbols depth t m := by
  induction t generalizing depth before with
  | nil => cases h
  | cons c t ih =>
      rw [beforeEnder?] at h
      split_ifs at h with hstart
      · cases h
        exact ⟨0, rfl, ⟨hstart.1, startsWithAny_iff.mp hstart.2⟩, fun m hm =>
          absurd hm m.not_lt_zero⟩
      · obtain ⟨before', hbefore, rfl⟩ := Option.map_eq_some_iff.mp h
        obtain ⟨n, rfl, hn, hfirst⟩ := ih hbefore
        refine ⟨n + 1, rfl, stopsAt_cons_succ.mpr hn, fun m hm => ?_⟩
        cases m with
        | zero => exact fun hzero => hstart ⟨hzero.1, startsWithAny_iff.mpr hzero.2⟩
        | succ m => exact fun hm' => hfirst m (by omega) (stopsAt_cons_succ.mp hm')

theorem beforeEnder?_eq_none (hsymbols : ∀ mark ∈ symbols, mark ≠ [])
    (h : beforeEnder? symbols depth t = none) (n : Nat) : ¬ StopsAt symbols depth t n := by
  induction t generalizing depth n with
  | nil => exact fun hstop => absurd (hstop.2.lt_length hsymbols) n.not_lt_zero
  | cons c t ih =>
      rw [beforeEnder?] at h
      split_ifs at h with hstart
      cases n with
      | zero => exact fun hzero => hstart ⟨hzero.1, startsWithAny_iff.mpr hzero.2⟩
      | succ n =>
          rw [stopsAt_cons_succ]
          exact ih (Option.map_eq_none_iff.mp h) n

/-! ## The first ender of joined code -/

variable {enders : List PrototypeEnder} {extender : Option Text} {p : Piece} {pieces : List Piece}

theorem mem_symbols_ofEnders {mark : Text} :
    mark ∈ (Ending.ofEnders enders extender).symbols ↔ .symbol mark ∈ enders ∧ mark ≠ [] := by
  rw [Ending.ofEnders, List.mem_filterMap]
  constructor
  · rintro ⟨ender, hender, heq⟩
    cases ender with
    | symbol other =>
        obtain ⟨hne, heq⟩ := Option.ite_none_left_eq_some.mp heq
        cases heq
        exact ⟨hender, hne⟩
    | lineBreak => cases heq
  · rintro ⟨hender, hne⟩
    exact ⟨.symbol mark, hender, if_neg hne⟩

theorem lineBreak_ofEnders (enders : List PrototypeEnder) (extender : Option Text) :
    (Ending.ofEnders enders extender).lineBreak = true ↔ .lineBreak ∈ enders :=
  List.contains_iff_mem

theorem joined_cons (p : Piece) (pieces : List Piece) :
    joined (p :: pieces) = p.text ++ p.joint :: joined pieces := by
  simp [joined]

theorem length_joined_cons (p : Piece) (pieces : List Piece) :
    (joined (p :: pieces)).length = p.text.length + 1 + (joined pieces).length := by
  rw [joined_cons, List.length_append, List.length_cons]
  omega

theorem joint_eq_lineFeed_iff : p.joint = lineFeed ↔ p.isContinued = false := by
  rw [Piece.joint]
  split_ifs with h
  · exact ⟨fun heq => absurd heq (by decide), fun hfalse => Bool.noConfusion (h.symm.trans hfalse)⟩
  · exact ⟨fun _ => Bool.eq_false_iff.mpr h, fun _ => rfl⟩

theorem depthAfter_joint (depth : Nat) (p : Piece) : depthAfter depth p.joint = depth := by
  rw [Piece.joint]
  split_ifs <;> rfl

/-- An ender stands in the first piece, at its end, or behind it. -/
theorem enderAt_cons (extender : Option Text) (hp : lineFeed ∉ p.text) :
    EnderAt enders (p :: pieces) n ↔
      SymbolAt (Ending.ofEnders enders extender).symbols p.text n ∨
        (.lineBreak ∈ enders ∧ p.isContinued = false ∧ n = p.text.length) ∨
          ∃ m, n = p.text.length + 1 + m ∧ EnderAt enders pieces m := by
  constructor
  · rintro (@⟨before, behind, q, start, mark, rest, hpieces, htext, hmark, hne⟩ | ⟨hender, hbreak⟩)
    · cases before with
      | nil =>
          obtain ⟨rfl, -⟩ := List.cons_eq_cons.mp hpieces
          exact .inl ⟨start, mark, rest, htext, mem_symbols_ofEnders.mpr ⟨hmark, hne⟩, by
            simp [joined]⟩
      | cons first before =>
          obtain ⟨rfl, hbehind⟩ := List.cons_eq_cons.mp hpieces
          refine .inr (.inr ⟨_, ?_, .symbol before behind hbehind htext hmark hne⟩)
          rw [length_joined_cons]
          omega
    · rw [joined_cons] at hbreak
      rcases Nat.lt_trichotomy n p.text.length with hn | rfl | hn
      · rw [List.getElem?_append_left hn] at hbreak
        exact absurd (List.mem_of_getElem? hbreak) hp
      · refine .inr (.inl ⟨hender, joint_eq_lineFeed_iff.mp ?_, rfl⟩)
        simpa using hbreak
      · obtain ⟨m, rfl⟩ := Nat.exists_eq_add_of_le hn
        refine .inr (.inr ⟨m, rfl, .lineBreak hender ?_⟩)
        have hm : p.text.length.succ + m - p.text.length = m + 1 := by omega
        rwa [List.getElem?_append_right (by omega), hm] at hbreak
  · rintro (⟨start, mark, rest, htext, hmark, rfl⟩ | ⟨hender, hcontinued, rfl⟩ | ⟨m, rfl, hm⟩)
    · obtain ⟨hender, hne⟩ := mem_symbols_ofEnders.mp hmark
      simpa [joined] using EnderAt.symbol [] pieces rfl htext hender hne
    · exact .lineBreak hender (by simp [joined_cons, joint_eq_lineFeed_iff.mpr hcontinued])
    · cases hm with
      | symbol before behind hpieces htext hmark hne =>
          have hcons := congrArg (p :: ·) hpieces
          have h := EnderAt.symbol (p :: before) behind hcons htext hmark hne
          convert h using 1
          rw [length_joined_cons]
          omega
      | lineBreak hender hbreak =>
          have hm : p.text.length + 1 + m - p.text.length = m + 1 := by omega
          refine .lineBreak hender ?_
          rwa [joined_cons, List.getElem?_append_right (by omega), hm]

/-! ## Cutting piece by piece -/

/-- The code of some pieces up to the first ender outside of brackets. -/
def cut (ending : Ending) (depth : Nat) : List Piece → Text
  | [] => []
  | p :: pieces =>
    match beforeEnder? ending.symbols depth p.text with
    | some before => before
    | none =>
      let depth := p.text.foldl depthAfter depth
      if p.isContinued = false ∧ ending.lineBreak ∧ depth = 0 then p.text
      else p.text ++ p.joint :: cut ending depth pieces

theorem take_joined_of_le (h : n ≤ p.text.length) :
    (joined (p :: pieces)).take n = p.text.take n := by
  rw [joined_cons, List.take_append_of_le_length h]

theorem take_joined_behind (p : Piece) (pieces : List Piece) (m : Nat) :
    (joined (p :: pieces)).take (p.text.length + 1 + m) =
      p.text ++ p.joint :: (joined pieces).take m := by
  have hm : p.text.length + 1 + m - p.text.length = m + 1 := by omega
  rw [joined_cons, List.take_append, List.take_of_length_le (by omega), hm, List.take_succ_cons]

theorem depthAt_joined_of_le (h : n ≤ p.text.length) :
    depthAt depth (joined (p :: pieces)) n = depthAt depth p.text n := by
  rw [depthAt, depthAt, take_joined_of_le h]

theorem depthAt_joined_behind (depth : Nat) (p : Piece) (pieces : List Piece) (m : Nat) :
    depthAt depth (joined (p :: pieces)) (p.text.length + 1 + m) =
      depthAt (p.text.foldl depthAfter depth) (joined pieces) m := by
  rw [depthAt, take_joined_behind, List.foldl_append, List.foldl_cons, depthAfter_joint]
  rfl

/-- Inside of the first piece, the code ends where the search in the piece stops. -/
theorem endsAt_cons_of_lt (extender : Option Text) (hp : lineFeed ∉ p.text)
    (hn : n < p.text.length) :
    EndsAt enders depth (p :: pieces) n ↔
      StopsAt (Ending.ofEnders enders extender).symbols depth p.text n := by
  rw [EndsAt, StopsAt, depthAt_joined_of_le hn.le, enderAt_cons extender hp]
  refine and_congr_right fun _ => or_iff_left ?_
  rintro (⟨-, -, rfl⟩ | ⟨k, rfl, -⟩) <;> omega

/-- In a first piece that has no symbol to stop at, the code ends at its end or behind it. -/
theorem endsAt_cons_of_beforeEnder?_eq_none (extender : Option Text) (hp : lineFeed ∉ p.text)
    (h : beforeEnder? (Ending.ofEnders enders extender).symbols depth p.text = none) :
    EndsAt enders depth (p :: pieces) n ↔
      (.lineBreak ∈ enders ∧ p.isContinued = false ∧ n = p.text.length ∧
          p.text.foldl depthAfter depth = 0) ∨
        ∃ m, n = p.text.length + 1 + m ∧
          EndsAt enders (p.text.foldl depthAfter depth) pieces m := by
  have hsymbols : ∀ mark ∈ (Ending.ofEnders enders extender).symbols, mark ≠ [] :=
    fun mark hmark => (mem_symbols_ofEnders.mp hmark).2
  have hend : depthAt depth p.text p.text.length = p.text.foldl depthAfter depth := by
    rw [depthAt, List.take_length]
  rw [EndsAt, enderAt_cons extender hp]
  constructor
  · rintro ⟨hdepth, hsymbol | ⟨hender, hcontinued, rfl⟩ | ⟨m, rfl, hm⟩⟩
    · rw [depthAt_joined_of_le (hsymbol.lt_length hsymbols).le] at hdepth
      exact absurd ⟨hdepth, hsymbol⟩ (beforeEnder?_eq_none hsymbols h n)
    · rw [depthAt_joined_of_le le_rfl, hend] at hdepth
      exact .inl ⟨hender, hcontinued, rfl, hdepth⟩
    · rw [depthAt_joined_behind] at hdepth
      exact .inr ⟨m, rfl, hdepth, hm⟩
  · rintro (⟨hender, hcontinued, rfl, hdepth⟩ | ⟨m, rfl, hdepth, hm⟩)
    · rw [depthAt_joined_of_le le_rfl, hend]
      exact ⟨hdepth, .inr (.inl ⟨hender, hcontinued, rfl⟩)⟩
    · rw [depthAt_joined_behind]
      exact ⟨hdepth, .inr (.inr ⟨m, rfl, hm⟩)⟩

/-- Cutting piece by piece cuts the joined code at the first ender outside of brackets. -/
theorem exists_isFirst_cut (enders : List PrototypeEnder) (extender : Option Text) (depth : Nat)
    {pieces : List Piece} (hpieces : ∀ p ∈ pieces, lineFeed ∉ p.text) :
    ∃ n, IsFirst (EndsAt enders depth pieces) (joined pieces).length n ∧
      (joined pieces).take n = cut (.ofEnders enders extender) depth pieces := by
  induction pieces generalizing depth with
  | nil =>
      exact ⟨0, ⟨le_rfl, fun m hm => absurd hm m.not_lt_zero, fun h => absurd h (by decide)⟩, rfl⟩
  | cons p pieces ih =>
      obtain ⟨hp, hpieces⟩ := List.forall_mem_cons.mp hpieces
      rw [cut, length_joined_cons]
      cases hsymbol : beforeEnder? (Ending.ofEnders enders extender).symbols depth p.text with
      | some before =>
          -- The first symbol of the piece comes before the joint and all that is behind it.
          obtain ⟨n, rfl, hstop, hfirst⟩ := beforeEnder?_eq_some hsymbol
          have hn : n < p.text.length :=
            hstop.2.lt_length fun mark hmark => (mem_symbols_ofEnders.mp hmark).2
          have hiff : ∀ m ≤ n, EndsAt enders depth (p :: pieces) m ↔ _ := fun m hm =>
            endsAt_cons_of_lt extender hp (hm.trans_lt hn)
          exact ⟨n, ⟨by omega, fun m hm hend => hfirst m hm ((hiff m hm.le).mp hend),
            fun _ => (hiff n le_rfl).mpr hstop⟩, take_joined_of_le hn.le⟩
      | none =>
          have hiff : ∀ n, EndsAt enders depth (p :: pieces) n ↔ _ := fun n =>
            endsAt_cons_of_beforeEnder?_eq_none extender hp hsymbol
          simp only [← lineBreak_ofEnders enders extender] at hiff
          dsimp only
          split_ifs with hjoint
          · -- The line break behind the piece ends the code.
            obtain ⟨hcontinued, hbreak, hdepth⟩ := hjoint
            refine ⟨p.text.length, ⟨by omega, fun m hm hend => ?_,
              fun _ => (hiff _).mpr (.inl ⟨hbreak, hcontinued, rfl, hdepth⟩)⟩, ?_⟩
            · rcases (hiff m).mp hend with ⟨-, -, rfl, -⟩ | ⟨k, rfl, -⟩ <;> omega
            · rw [take_joined_of_le le_rfl, List.take_length]
          · obtain ⟨n, hfirst, htake⟩ := ih (p.text.foldl depthAfter depth) hpieces
            have hbehind : ∀ m, EndsAt enders depth (p :: pieces) m ↔ ∃ k, _ := fun m =>
              (hiff m).trans (or_iff_right fun ⟨hbreak, hcontinued, _, hdepth⟩ =>
                hjoint ⟨hcontinued, hbreak, hdepth⟩)
            refine ⟨p.text.length + 1 + n, hfirst.shift hbehind, ?_⟩
            rw [take_joined_behind, htake]

/-! ## Collecting line by line -/

variable {ending : Ending} {line taken : Text} {lines : List Text}

theorem splitExtender_eq (extender : Option Text) (line : Text) :
    splitExtender extender line =
      ((Piece.ofLine extender line).text, (Piece.ofLine extender line).isContinued) := by
  cases extender with
  | none => rfl
  | some mark =>
      by_cases hmark : mark = []
      · simp [splitExtender, Piece.ofLine, hmark]
      · by_cases hsuffix : mark <:+ trimBlankEnd line <;>
          simp [splitExtender, Piece.ofLine, beforeEnd?, hmark, hsuffix]

theorem lineFeed_not_mem_ofLine (extender : Option Text) (h : lineFeed ∉ line) :
    lineFeed ∉ (Piece.ofLine extender line).text := by
  have hpart : (Piece.ofLine extender line).text <+: line := by
    have htrim : trimBlankEnd line <+: line := trimEnd_isPrefix isBlank line
    cases extender with
    | none => exact htrim
    | some mark =>
        simp only [Piece.ofLine]
        split_ifs
        · exact (List.take_prefix _ _).trans htrim
        · exact htrim
  exact fun hmem => h (hpart.subset hmem)

theorem isBlank_joint (p : Piece) : isBlank p.joint := by
  rw [Piece.joint]
  split_ifs <;> decide

theorem collect_cons_of_isEmpty (h : (Piece.ofLine ending.extender line).isEmpty) :
    collect ending taken depth (line :: lines) =
      if taken ≠ [] ∧ ending.lineBreak ∧ depth = 0 then taken
      else collect ending taken depth lines := by
  rw [Piece.isEmpty, Bool.and_eq_true] at h
  rw [collect, splitExtender_eq]
  exact if_pos h

theorem collect_cons_of_not_isEmpty (h : ¬ (Piece.ofLine ending.extender line).isEmpty) :
    collect ending taken depth (line :: lines) =
      match beforeEnder? ending.symbols depth (Piece.ofLine ending.extender line).text with
      | some before => taken ++ before
      | none =>
        let p := Piece.ofLine ending.extender line
        let depth := p.text.foldl depthAfter depth
        if p.isContinued = false ∧ ending.lineBreak ∧ depth = 0 then taken ++ p.text
        else collect ending (taken ++ p.text ++ [p.joint]) depth lines := by
  rw [Piece.isEmpty, Bool.and_eq_true] at h
  rw [collect, splitExtender_eq]
  dsimp only
  rw [if_neg h]
  cases beforeEnder? ending.symbols depth (Piece.ofLine ending.extender line).text with
  | some before => rfl
  | none =>
      cases hcontinued : (Piece.ofLine ending.extender line).isContinued <;>
        simp [Piece.joint, hcontinued]

/-- What stands behind the code taken so far shares no word with it. -/
def Apart (taken : Text) : Prop := ∀ t, words (taken ++ t) = words taken ++ words t

theorem Apart.nil : Apart [] := fun _ => rfl

theorem Apart.concat_blank {c : Char} (hc : isBlank c) (t : Text) : Apart (t ++ [c]) := fun u => by
  rw [List.append_assoc, List.singleton_append, words_append_blank hc, words_concat_blank hc]

theorem ofLine_of_isEmpty (h : (Piece.ofLine extender line).isEmpty) :
    Piece.ofLine extender line = ⟨[], false⟩ := by
  obtain ⟨hblank, hcontinued⟩ := (Bool.and_eq_true _ _).mp h
  have htext : Piece.ofLine extender line = ⟨trimBlankEnd line, false⟩ := by
    cases extender with
    | none => rfl
    | some mark =>
        rw [Bool.not_eq_true'] at hcontinued
        simp only [Piece.ofLine] at hcontinued ⊢
        split_ifs at hcontinued ⊢
        rfl
  rw [htext] at hblank ⊢
  rw [← words_eq_nil_iff, words_trimEnd, words_eq_nil_iff, List.all_eq_true] at hblank
  rw [trimBlankEnd, trimEnd_eq_rdropWhile, List.rdropWhile_eq_nil_iff.mpr hblank]

/-- The code collected line by line has the words of the joined lines up to the first ender. -/
theorem words_collect (htaken : Apart taken)
    (hstart : taken ≠ [] ∨ ∀ line ∈ lines.head?, ¬ (Piece.ofLine ending.extender line).isEmpty) :
    words (collect ending taken depth lines) =
      words taken ++ words (cut ending depth (lines.map (Piece.ofLine ending.extender))) := by
  induction lines generalizing taken depth with
  | nil => exact (List.append_nil _).symm
  | cons line lines ih =>
      rw [List.map_cons, cut]
      by_cases hempty : (Piece.ofLine ending.extender line).isEmpty
      · have hne : taken ≠ [] := hstart.resolve_right fun h => h line rfl hempty
        rw [collect_cons_of_isEmpty hempty, ofLine_of_isEmpty hempty]
        simp only [beforeEnder?, List.foldl_nil, hne, ne_eq, not_false_eq_true, true_and]
        split_ifs
        · rw [words_nil, List.append_nil]
        · rw [List.nil_append, words_blank_cons (isBlank_joint _)]
          exact ih htaken (.inl hne)
      · rw [collect_cons_of_not_isEmpty hempty]
        set p := Piece.ofLine ending.extender line
        cases beforeEnder? ending.symbols depth p.text with
        | some before => exact htaken before
        | none =>
            dsimp only
            split_ifs
            · exact htaken p.text
            · rw [ih (.concat_blank (isBlank_joint p) _) (.inl (List.concat_ne_nil _ _)),
                words_concat_blank (isBlank_joint p), htaken, List.append_assoc,
                words_append_blank (isBlank_joint p)]

theorem collect_dropWhile (ending : Ending) (depth : Nat) (lines : List Text) :
    collect ending [] depth lines =
      collect ending [] depth (lines.dropWhile (Piece.isEmpty ∘ Piece.ofLine ending.extender)) := by
  induction lines with
  | nil => rfl
  | cons line lines ih =>
      rw [List.dropWhile_cons]
      split_ifs with hempty
      · rw [collect_cons_of_isEmpty hempty, if_neg fun h => h.1 rfl, ih]
      · rfl

/-- The lines as they are joined: the empty ones at the start are left out. -/
def Piece.ofLines (extender : Option Text) (lines : List Text) : List Piece :=
  (lines.map (Piece.ofLine extender)).dropWhile Piece.isEmpty

theorem words_collect_nil (ending : Ending) (depth : Nat) (lines : List Text) :
    words (collect ending [] depth lines) =
      words (cut ending depth (Piece.ofLines ending.extender lines)) := by
  rw [collect_dropWhile, words_collect .nil (.inr ?_), words_nil, List.nil_append, Piece.ofLines,
    List.dropWhile_map]
  intro line hline
  have h := List.head?_dropWhile_not (Piece.isEmpty ∘ Piece.ofLine ending.extender) lines
  rw [Option.mem_def.mp hline] at h
  exact Bool.eq_false_iff.mp h

/-- A prototype on one line is the joined code up to the first place where an ender stands outside
of brackets, and there is none exactly if that code is white space. -/
theorem normalize_capture (enders : List PrototypeEnder) (extender : Option Text)
    (lines : List Text) (h : ∀ line ∈ lines, lineFeed ∉ line) :
    ∃ n, IsFirst (EndsAt enders 0 (Piece.ofLines extender lines))
        (joined (Piece.ofLines extender lines)).length n ∧
      (capture enders extender lines).map normalize =
        if isAllBlank ((joined (Piece.ofLines extender lines)).take n) then none
        else some (normalize ((joined (Piece.ofLines extender lines)).take n)) := by
  have hpieces : ∀ p ∈ Piece.ofLines extender lines, lineFeed ∉ p.text := by
    intro p hp
    obtain ⟨line, hline, rfl⟩ := List.mem_map.mp ((List.dropWhile_sublist _).subset hp)
    exact lineFeed_not_mem_ofLine extender (h line hline)
  obtain ⟨n, hfirst, htake⟩ := exists_isFirst_cut enders extender 0 hpieces
  have hwords : words (collect (.ofEnders enders extender) [] 0 lines) =
      words ((joined (Piece.ofLines extender lines)).take n) :=
    (words_collect_nil _ 0 lines).trans (congrArg words htake.symm)
  refine ⟨n, hfirst, ?_⟩
  simp only [capture, trimBlank_eq_nil_iff, hwords, words_eq_nil_iff]
  split_ifs
  · rfl
  · rw [Option.map_some, normalize, normalize, squeeze, squeeze, words_trimBlank, hwords]

/-- A line that ends the code, behind one that is continued and one that is empty. -/
theorem normalize_capture_makefile :
    let lines := ["  ", "FOO = a \\ ", " (b", "", ") \t c", "BAR = d"].map String.toList
    let pieces := Piece.ofLines (some ['\\']) lines
    (capture [.lineBreak] (some ['\\']) lines).map normalize = some "FOO = a (b ) c".toList ∧
      ∃ n, IsFirst (EndsAt [.lineBreak] 0 pieces) (joined pieces).length n ∧
        (capture [.lineBreak] (some ['\\']) lines).map normalize =
          if isAllBlank ((joined pieces).take n) then none
          else some (normalize ((joined pieces).take n)) :=
  ⟨by decide +kernel, normalize_capture _ _ _ (by decide +kernel)⟩

end Commentary.Prototype
