import Commentary.Proofs.Comment.Line

/-!
# The marker that counts

A line starts a comment exactly if a marker stands first on it, behind spaces and tabs. The longest
of the markers there counts, and an opener counts before a line marker that is as long.
-/

namespace Commentary.Language

open Text

/-- The text of a line from its first character other than a space or a tab on. -/
def code (line : Text) : Text := trimStart isSpaceOrTab line

/-- Everything that can start a comment. -/
def markers (l : Language) : List Text := l.lineMarkers ++ l.blockMarkers.map BlockMarkers.opener

/-- A marker stands first on the line. An empty one marks nothing. -/
def StartsComment (l : Language) (line : Text) : Prop :=
  ∃ marker ∈ l.markers, marker ≠ [] ∧ marker <+: code line

/-- The line starts with the marker behind spaces and tabs, and no marker of the language that is
longer stands there. -/
structure Counts (l : Language) (m : Marked) (line : Text) : Prop where
  line_eq : line = m.indent ++ (m.marker ++ m.rest)
  indent : ∀ c ∈ m.indent, isSpaceOrTab c
  stands : m.marker <+: code line
  marker_ne_nil : m.marker ≠ []
  longest : ∀ marker ∈ l.markers, marker <+: code line → marker.length ≤ m.marker.length

variable {l : Language} {line : Text} {m : Marked}

/-! ## Marked lines -/

theorem marked?_eq_some {marker : Text} (h : marked? marker line = some m) :
    m.marker = marker ∧ marker ≠ [] ∧ (∀ c ∈ m.indent, isSpaceOrTab c) ∧
      code line = marker ++ m.rest := by
  obtain ⟨hne, h⟩ := Option.ite_none_left_eq_some.mp h
  obtain ⟨rest, hrest, rfl⟩ := Option.map_eq_some_iff.mp h
  exact ⟨rfl, hne, fun c hc => List.mem_takeWhile_imp hc, eq_append_of_afterStart? hrest⟩

theorem exists_marked? {marker : Text} (hne : marker ≠ []) (h : marker <+: code line) :
    ∃ m, marked? marker line = some m ∧ m.marker = marker := by
  obtain ⟨rest, hrest⟩ := Option.isSome_iff_exists.mp (isSome_afterStart?_iff.mpr h)
  exact ⟨_, (if_neg hne).trans (Option.map_eq_some_iff.mpr ⟨rest, hrest, rfl⟩), rfl⟩

/-! ## The longest marker -/

section

variable {α : Type} {length : α → Nat} {as : List α} {a : α}

theorem longest?_eq_none_iff : longest? length as = none ↔ as = [] := by
  cases as with
  | nil => exact iff_of_true rfl rfl
  | cons a as =>
      refine iff_of_false ?_ (List.cons_ne_nil a as)
      rw [longest?]
      split
      · split_ifs <;> simp
      · exact Option.some_ne_none a

theorem length_le_of_longest? (h : longest? length as = some a) :
    ∀ b ∈ as, length b ≤ length a := by
  induction as generalizing a with
  | nil => cases h
  | cons c as ih =>
      rw [longest?] at h
      split at h
      · next other hother =>
          split_ifs at h with hle <;> cases h
          · exact List.forall_mem_cons.mpr ⟨hle, ih hother⟩
          · refine List.forall_mem_cons.mpr ⟨le_rfl, fun b hb => ?_⟩
            exact (ih hother b hb).trans (Nat.le_of_not_le hle)
      · next hnone =>
          cases h
          rw [longest?_eq_none_iff.mp hnone]
          exact List.forall_mem_singleton.mpr le_rfl

end

/-- A line marker that stands on the line is no longer than the one that is found. -/
theorem exists_lineMarker? {marker : Text} (hmarker : marker ∈ l.lineMarkers) (hne : marker ≠ [])
    (h : marker <+: code line) :
    ∃ m, l.lineMarker? line = some m ∧ marker.length ≤ m.length := by
  obtain ⟨m, hm, rfl⟩ := exists_marked? hne h
  have hmem : m ∈ l.lineMarkers.filterMap (marked? · line) :=
    List.mem_filterMap.mpr ⟨m.marker, hmarker, hm⟩
  cases hlongest : l.lineMarker? line with
  | none => exact absurd (longest?_eq_none_iff.mp hlongest) (List.ne_nil_of_mem hmem)
  | some other => exact ⟨other, rfl, length_le_of_longest? hlongest m hmem⟩

/-- An opener that stands on the line is no longer than the one that is found. -/
theorem exists_blockMarker? {markers : BlockMarkers} (hmarkers : markers ∈ l.blockMarkers)
    (hne : markers.opener ≠ []) (h : markers.opener <+: code line) :
    ∃ m closer, l.blockMarker? line = some (m, closer) ∧ markers.opener.length ≤ m.length := by
  obtain ⟨m, hm, hmarker⟩ := exists_marked? hne h
  have hmem : (m, markers.closer) ∈
      l.blockMarkers.filterMap fun m => (marked? m.opener line).map (·, m.closer) :=
    List.mem_filterMap.mpr ⟨markers, hmarkers, Option.map_eq_some_iff.mpr ⟨m, hm, rfl⟩⟩
  cases hlongest : l.blockMarker? line with
  | none => exact absurd (longest?_eq_none_iff.mp hlongest) (List.ne_nil_of_mem hmem)
  | some other =>
      obtain ⟨m', closer⟩ := other
      refine ⟨m', closer, rfl, ?_⟩
      rw [← hmarker]
      exact length_le_of_longest? hlongest _ hmem

/-! ## The start of a comment -/

theorem mem_markers {marker : Text} :
    marker ∈ l.markers ↔
      marker ∈ l.lineMarkers ∨ ∃ markers ∈ l.blockMarkers, markers.opener = marker := by
  rw [markers, List.mem_append, List.mem_map]

/-- A line comment starts with the longest of the markers that stand there. -/
theorem counts_of_start_eq_line (h : l.start line = .line m) :
    m.marker ∈ l.lineMarkers ∧ l.Counts m line := by
  obtain ⟨hline, hblock⟩ := lineMarker?_of_start h
  obtain ⟨marker, hmarker, hmarked⟩ := List.mem_filterMap.mp (mem_of_longest? hline)
  obtain ⟨rfl, hne, hindent, hcode⟩ := marked?_eq_some hmarked
  refine ⟨hmarker, eq_append_of_marked? hmarked, hindent, ⟨m.rest, hcode.symm⟩, hne,
    fun other hother hstands => ?_⟩
  by_cases hnil : other = []
  · exact hnil ▸ Nat.zero_le _
  rcases mem_markers.mp hother with hother | ⟨markers, hmarkers, rfl⟩
  · obtain ⟨m', hm', hle⟩ := exists_lineMarker? hother hnil hstands
    rw [hline] at hm'
    cases hm'
    exact hle
  · obtain ⟨m', closer, hm', hle⟩ := exists_blockMarker? hmarkers hnil hstands
    exact hle.trans (hblock m' closer hm').le

/-- A block starts with the longest of the markers that stand there. -/
theorem counts_of_start_eq_block {closer : Text} (h : l.start line = .block m closer) :
    ⟨m.marker, closer⟩ ∈ l.blockMarkers ∧ l.Counts m line := by
  obtain ⟨hblock, hline⟩ := blockMarker?_of_start h
  obtain ⟨markers, hmarkers, heq⟩ := List.mem_filterMap.mp (mem_of_longest? hblock)
  obtain ⟨m', hmarked, heq⟩ := Option.map_eq_some_iff.mp heq
  cases heq
  obtain ⟨hmarker, hne, hindent, hcode⟩ := marked?_eq_some hmarked
  rw [← hmarker] at hne hcode
  refine ⟨hmarker ▸ hmarkers, eq_append_of_marked? hmarked, hindent, ⟨m.rest, hcode.symm⟩, hne,
    fun other hother hstands => ?_⟩
  by_cases hnil : other = []
  · exact hnil ▸ Nat.zero_le _
  rcases mem_markers.mp hother with hother | ⟨markers', hmarkers', rfl⟩
  · obtain ⟨m', hm', hle⟩ := exists_lineMarker? hother hnil hstands
    exact hle.trans (hline m' hm')
  · obtain ⟨m', closer, hm', hle⟩ := exists_blockMarker? hmarkers' hnil hstands
    rw [hblock] at hm'
    cases hm'
    exact hle

theorem Counts.startsComment (h : l.Counts m line) (hmarker : m.marker ∈ l.markers) :
    l.StartsComment line :=
  ⟨m.marker, hmarker, h.marker_ne_nil, h.stands⟩

/-- A line starts a comment exactly if a marker stands first on it. -/
theorem start_eq_none_iff : l.start line = .none ↔ ¬ l.StartsComment line := by
  constructor
  · rintro h ⟨marker, hmarker, hne, hstands⟩
    obtain ⟨hblock, hline⟩ := markers?_of_start h
    rcases mem_markers.mp hmarker with hmarker | ⟨markers, hmarkers, rfl⟩
    · obtain ⟨m, hm, -⟩ := exists_lineMarker? hmarker hne hstands
      rw [hline] at hm
      cases hm
    · obtain ⟨m, closer, hm, -⟩ := exists_blockMarker? hmarkers hne hstands
      rw [hblock] at hm
      cases hm
  · intro h
    cases hstart : l.start line with
    | none => rfl
    | line m =>
        obtain ⟨hmarker, hcounts⟩ := counts_of_start_eq_line hstart
        exact absurd (hcounts.startsComment (mem_markers.mpr (.inl hmarker))) h
    | block m closer =>
        obtain ⟨hmarkers, hcounts⟩ := counts_of_start_eq_block hstart
        exact absurd (hcounts.startsComment (mem_markers.mpr (.inr ⟨_, hmarkers, rfl⟩))) h

end Commentary.Language
