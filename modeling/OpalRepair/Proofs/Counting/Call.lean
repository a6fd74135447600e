import Mathlib
import OpalRepair.Proofs.Bytes.Count

/-!
# Where conditional counts stand

The cells of a conditional count are its label, the call of `count_if` and, up to the parenthesis
that closes the call, the condition.  Two counts of a query are nested or apart.
-/

namespace OpalRepair.FlagCount

open Query Text Vocabulary

/-- The cells of a conditional count: what precedes its parenthesis, the parenthesis, what stands
inside and the parenthesis that closes it. -/
structure Spelled (count : Count) (head : List Cell) (paren : Cell) (inside : List Cell)
    (close : Cell) : Prop where
  first : head.head?.any Cell.isLiteral = false
  name : ∃ gap blanks spaces, (∀ c ∈ gap, isBlank c = true) ∧ (∀ c ∈ blanks, isBlank c = true) ∧
    (∀ c ∈ spaces, isBlank c = true) ∧
    text head = count.label ++ gap ++ ':' :: blanks ++ "count_if".toList ++ spaces
  start : count.label.head?.any isNameStart = true
  label : ∀ c ∈ count.label, isNameChar c = true
  paren : paren.isCode '(' = true
  close : close.isCode ')' = true
  level : Level inside
  condition : count.condition = trim (text inside)
  nonempty : count.condition ≠ []

namespace Spelled

variable {count : Count} {head inside : List Cell} {paren close : Cell}

theorem label_ne_nil (h : Spelled count head paren inside close) : count.label ≠ [] := by
  intro hnil
  have := h.start
  simp [hnil] at this

theorem head_chars (h : Spelled count head paren inside close) :
    ∀ cell ∈ head, cell.char ≠ '(' ∧ cell.char ≠ ')' ∧ Plain cell.char ∧ cell.char ≠ '|' := by
  obtain ⟨gap, blanks, spaces, hgap, hblanks, hspaces, htext⟩ := h.name
  have hname {c : Char} (hc : isNameChar c = true) :
      c ≠ '(' ∧ c ≠ ')' ∧ Plain c ∧ c ≠ '|' := by
    refine ⟨?_, ?_, ⟨?_, ?_, ?_, ?_⟩, ?_⟩ <;> rintro rfl <;> revert hc <;> decide
  have hblank {c : Char} (hc : isBlank c = true) : c ≠ '(' ∧ c ≠ ')' ∧ Plain c ∧ c ≠ '|' := by
    refine ⟨?_, ?_, plain_of_isBlank hc, ?_⟩ <;> rintro rfl <;> revert hc <;> decide
  intro cell hcell
  have hmem : cell.char ∈ text head := List.mem_map_of_mem hcell
  rw [htext] at hmem
  simp only [List.mem_append, List.mem_cons] at hmem
  rcases hmem with (((hc | hc) | hc | hc) | hc) | hc
  · exact hname (h.label _ hc)
  · exact hblank (hgap _ hc)
  · rw [hc]
    simp [Plain]
  · exact hblank (hblanks _ hc)
  · exact hname ((by simp; decide : ∀ c ∈ "count_if".toList, isNameChar c = true) _ hc)
  · exact hblank (hspaces _ hc)

theorem row_level (h : Spelled count head paren inside close) :
    Level (head ++ paren :: (inside ++ [close])) :=
  (level_of_forall fun cell hcell =>
    let hchars := h.head_chars cell hcell
    ⟨hchars.1, hchars.2.1⟩).append (h.level.paren h.paren h.close)

end Spelled

/-! ## Counts at sites -/

section Sites

variable {query : List Char} {layout : Layout} {front rest : List Cell} {count : Count}

theorem start_of_countHead? {text label arguments : List Char}
    (h : countHead? text = some (label, arguments)) :
    label.head?.any isNameStart = true ∧ ∀ c ∈ label, isNameChar c = true := by
  obtain ⟨-, -, -, -, -, -, rfl, -⟩ := countHead?_eq h
  refine ⟨?_, fun c hc => List.mem_takeWhile_imp hc⟩
  cases text with
  | nil => simp [countHead?] at h
  | cons c text =>
      have hstart : isNameStart c = true := by
        by_contra hstart
        simp [countHead?, hstart] at h
      simp [isNameChar_of_isNameStart hstart, hstart]

theorem head_of_countHead? (hcells : cells query = front ++ rest)
    (hcode : rest.head?.any Cell.isLiteral = false) {label arguments : List Char}
    (hhead : countHead? (text rest) = some (label, arguments)) :
    ∃ head paren inside, rest = head ++ paren :: inside ∧ paren.isCode '(' = true ∧
      text inside = arguments ∧
      ∃ gap blanks spaces, (∀ c ∈ gap, isBlank c = true) ∧ (∀ c ∈ blanks, isBlank c = true) ∧
        (∀ c ∈ spaces, isBlank c = true) ∧
        text head = label ++ gap ++ ':' :: blanks ++ "count_if".toList ++ spaces := by
  obtain ⟨gap, blanks, spaces, hgap, hblanks, hspaces, hlabel, htext⟩ := countHead?_eq hhead
  have hname : ∀ c ∈ label, isNameChar c = true := by
    rw [hlabel]
    exact fun c hc => List.mem_takeWhile_imp hc
  have hwhole : text rest =
      (label ++ gap ++ ':' :: blanks ++ "count_if".toList ++ spaces ++ ['(']) ++ arguments := by
    rw [htext]
    simp
  obtain ⟨head, paren, inside, hrest, hheadText, hparen, hinside⟩ :=
    Bytes.paren_of_count hcells hcode hwhole rfl (Bytes.plain_count hname hgap hblanks hspaces)
  exact ⟨head, paren, inside, hrest, hparen, hinside, gap, blanks, spaces, hgap, hblanks, hspaces,
    hheadText⟩

theorem site_of_countAt? {site : Site} (h : countAt? layout site = some count) :
    (site.inLiteral || !site.startsWord || site.continuesPath) = false := by
  rw [countAt?] at h
  split at h
  · simp at h
  · rename_i hsite
    simpa using hsite

theorem countAt?_of_head {site : Site}
    (hsite : (site.inLiteral || !site.startsWord || site.continuesPath) = false)
    {label arguments : List Char} (hhead : countHead? (text site.rest) = some (label, arguments))
    {head inside : List Cell} {paren : Cell} (hrest : site.rest = head ++ paren :: inside)
    (hinside : text inside = arguments) :
    countAt? layout site =
      (aggregation? layout site.index).bind fun stage =>
        (closingParen? 0 inside).bind fun length =>
          if (trim (text (inside.take length))).isEmpty then none
          else some ⟨stage, ⟨site.index, site.index + (head.length + 1) + length + 1⟩, label,
            trim (text (inside.take length))⟩ := by
  have hsize : site.rest.length - arguments.length = head.length + 1 := by
    rw [← hinside, hrest]
    simp [text]
    omega
  have hdrop : site.rest.drop (head.length + 1) = inside := by
    rw [hrest]
    simp
  rw [countAt?, if_neg (by simp [hsite]), hhead]
  simp only [Option.bind_some, hsize, hdrop]

theorem countAt?_eq_some (hcells : cells query = front ++ rest)
    (h : countAt? layout ⟨front.length, (text front).getLast?, rest⟩ = some count) :
    ∃ head paren inside close back, rest = head ++ paren :: (inside ++ close :: back) ∧
      Spelled count head paren inside close ∧
      count.span = ⟨front.length, front.length + (head.length + inside.length + 2)⟩ ∧
      aggregation? layout front.length = some count.stage ∧
      ∃ whole, Bytes.readCount? (text front).getLast? (text rest) = some (whole, count.label) ∧
        whole.length = head.length + 1 := by
  have hsite := site_of_countAt? h
  obtain ⟨⟨hliteral, hword⟩, -⟩ : (rest.head?.any Cell.isLiteral = false ∧
      joinsWord (text front).getLast? = false) ∧ _ := by
    simpa [Site.inLiteral, Site.startsWord] using hsite
  cases hhead : countHead? (text rest) with
  | none =>
      rw [countAt?] at h
      simp [hhead] at h
  | some found =>
      obtain ⟨label, arguments⟩ := found
      obtain ⟨head, paren, inside, rfl, hparen, hinside, hspelling⟩ :=
        head_of_countHead? hcells hliteral hhead
      rw [countAt?_of_head hsite hhead rfl hinside] at h
      obtain ⟨stage, hstage, h⟩ := Option.bind_eq_some_iff.mp h
      obtain ⟨n, hclosing, h⟩ := Option.bind_eq_some_iff.mp h
      obtain ⟨inside, close, back, rfl, rfl, hclose, -⟩ := closingParen?_eq hclosing
      rw [List.take_left' rfl] at h
      split at h
      · simp at h
      · rename_i hcondition
        obtain rfl := Option.some.inj h
        obtain ⟨hstart, hname⟩ := start_of_countHead? hhead
        have hfirst : head.head?.any Cell.isLiteral = false := by
          cases head with
          | nil => rfl
          | cons cell head => simpa using hliteral
        refine ⟨head, paren, inside, close, back, rfl,
          ⟨hfirst, hspelling, hstart, hname, hparen, hclose, level_of_closing hclosing, rfl,
            by simpa using hcondition⟩, ?_, hstage, ?_⟩
        · simp only [Span.mk.injEq, true_and]
          omega
        · refine ⟨_, by rw [Bytes.readCount?, if_neg (by simp [hword]), hhead]; rfl, ?_⟩
          rw [← hinside]
          simp [text]
          omega

theorem mem_counts (layout : Layout) {row : List Cell} :
    count ∈ counts row layout ↔ ∃ front rest, row = front ++ rest ∧ rest ≠ [] ∧
      countAt? layout ⟨front.length, (text front).getLast?, rest⟩ = some count := by
  rw [counts, List.mem_filterMap]
  constructor
  · rintro ⟨⟨index, previous, rest⟩, hsite, hcount⟩
    obtain ⟨front, hrow, hrest, hindex, hprevious⟩ := mem_sitesFrom.mp hsite
    simp only [Nat.zero_add, Option.or_none] at hindex hprevious
    exact ⟨front, rest, hrow, hrest, by rw [← hindex, ← hprevious]; exact hcount⟩
  · rintro ⟨front, rest, rfl, hrest, hcount⟩
    exact ⟨_, mem_sitesFrom.mpr ⟨front, rfl, hrest, by simp, by simp⟩, hcount⟩

end Sites

/-! ## Nesting -/

/-- Whether a count lies inside the parentheses of another. -/
def Count.Within (inner outer : Count) : Prop :=
  outer.span.start < inner.span.start ∧ inner.span.stop < outer.span.stop

instance (inner outer : Count) : Decidable (inner.Within outer) :=
  inferInstanceAs (Decidable (_ ∧ _))

section Nesting

variable {query : List Char} {layout : Layout} {a b : Count}

theorem start_lt_stop {count : Count} (h : count ∈ counts (cells query) layout) :
    count.span.start < count.span.stop := by
  obtain ⟨front, rest, hrow, -, hcount⟩ := (mem_counts layout).mp h
  obtain ⟨_, _, _, _, _, -, -, hspan, -⟩ := countAt?_eq_some hrow hcount
  rw [hspan]
  dsimp only
  omega

theorem length_le_of_read {front mid rest : List Cell} {whole label : List Char}
    {found : List Char × List Char} (hmid : mid ≠ []) (hrest : rest ≠ [])
    (hread : Bytes.readCount? (text front).getLast? (text (mid ++ rest)) = some (whole, label))
    (hread' : Bytes.readCount? (text (front ++ mid)).getLast? (text rest) = some found) :
    whole.length ≤ mid.length := by
  by_contra hlength
  obtain ⟨cell, mid, rfl⟩ := List.exists_cons_of_ne_nil hmid
  rw [List.cons_append, text_cons, text_append] at hread
  have hclear := Bytes.readCount?_clear _ _ _ _ _ hread
  have hnone := hclear.eq_none (by simp [text] at hlength ⊢; omega) (by simpa [text] using hrest)
  have hlast : (text (front ++ cell :: mid)).getLast? =
      (text mid).getLast?.or (some cell.char) := by
    rw [text_append, text_cons, List.getLast?_append, List.getLast?_cons]
    cases (text mid).getLast? <;> rfl
  rw [hlast, hnone] at hread'
  simp at hread'

theorem within_or_behind (ha : a ∈ counts (cells query) layout)
    (hb : b ∈ counts (cells query) layout) (h : a.span.start < b.span.start) :
    b.Within a ∨ a.span.stop ≤ b.span.start := by
  obtain ⟨front, rest, hrow, -, hcount⟩ := (mem_counts layout).mp ha
  obtain ⟨head, paren, inside, close, back, rfl, hspelled, hspan, -, whole, hread, hwhole⟩ :=
    countAt?_eq_some hrow hcount
  obtain ⟨front', rest, hrow', hrest, hcount'⟩ := (mem_counts layout).mp hb
  obtain ⟨head', paren', inside', close', back', hrest', hspelled', hspan', -, whole', hread', -⟩ :=
    countAt?_eq_some hrow' hcount'
  rw [hspan, hspan'] at h
  -- What stands between the two starts covers the head of the first count.
  obtain ⟨mid, rfl, hsplit⟩ : ∃ mid, front' = front ++ mid ∧
      head ++ paren :: (inside ++ close :: back) = mid ++ rest := by
    rcases List.append_eq_append_iff.mp (hrow.symm.trans hrow') with ⟨mid, hmid, hsplit⟩ | ⟨mid, hmid, -⟩
    · exact ⟨mid, hmid, hsplit⟩
    · have := congrArg List.length hmid
      simp at this h
      omega
  have hmid : mid ≠ [] := List.ne_nil_of_length_pos (by simpa using h)
  have hlength : whole.length ≤ mid.length :=
    length_le_of_read hmid hrest (by rwa [← hsplit]) hread'
  obtain ⟨behind, rfl, hinside⟩ : ∃ behind, mid = head ++ paren :: behind ∧
      inside ++ close :: back = behind ++ rest := by
    have hhead : head ++ paren :: (inside ++ close :: back) =
        (head ++ [paren]) ++ (inside ++ close :: back) := by simp
    rw [hhead] at hsplit
    rcases List.append_eq_append_iff.mp hsplit with ⟨behind, hbehind, hinside⟩ | ⟨behind, hbehind, hinside⟩
    · exact ⟨behind, by simpa using hbehind, hinside⟩
    · have := congrArg List.length hbehind
      simp at this
      obtain rfl : behind = [] := List.length_eq_zero_iff.mp (by omega)
      exact ⟨[], by simpa using hbehind.symm, by simpa using hinside.symm⟩
  by_cases hinner : behind.length ≤ inside.length
  · -- The search that closes the first count passes over the second.
    left
    have hclosing := hspelled.level.closing hspelled.close back
    rw [hinside] at hclosing
    obtain ⟨depth, m, hm, hsum⟩ := closingParen?_past hclosing hinner
    have hlevel := hspelled'.row_level depth back'
    rw [hrest'] at hm
    simp only [List.append_assoc, List.cons_append, List.nil_append] at hlevel
    rw [hlevel] at hm
    obtain ⟨k, -, rfl⟩ := Option.map_eq_some_iff.mp hm
    rw [Count.Within, hspan, hspan']
    simp at hsum ⊢
    omega
  · right
    rw [hspan, hspan']
    simp
    omega

end Nesting

end OpalRepair.FlagCount
