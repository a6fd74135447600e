import Mathlib
import OpalRepair.Pass.DropTimeFilter
import OpalRepair.Proofs.Characters
import OpalRepair.Proofs.Reading

/-!
# Time filters

The stages that a declared time window makes redundant, by their grammar: the verb `filter`, a
column that holds the time of an event, a comparison and a time relative to now.
-/

namespace OpalRepair.DropTimeFilter

open Query Text

/-! ## The grammar -/

def Mentions (word text : List Char) : Prop :=
  ∃ front back, text = front ++ (word ++ back) ∧ (∀ c ∈ front.getLast?, isWordChar c = false) ∧
    ∀ c ∈ back.head?, isWordChar c = false

inductive Amount : List Char → Prop where
  | whole {digits : List Char} (hne : digits ≠ []) (hdigits : ∀ c ∈ digits, isDecimalDigit c = true) :
      Amount digits
  | fraction {digits more : List Char} (hne : digits ≠ [])
      (hdigits : ∀ c ∈ digits, isDecimalDigit c = true) (hmore : more ≠ [])
      (hfraction : ∀ c ∈ more, isDecimalDigit c = true) : Amount (digits ++ '.' :: more)

inductive Duration : List Char → Prop where
  | intro {number blanks unit : List Char} (hnumber : Amount number) (hblanks : Blanks blanks)
      (hne : unit ≠ []) (hunit : ∀ c ∈ unit, c.isAlpha = true) : Duration (number ++ (blanks ++ unit))

/-- A time relative to now: a quoted time ago, or a duration before the end of the query's time. -/
inductive RelativeTime : List Char → Prop where
  | ago {quote : Char} {time : List Char} (hquote : quote = '"' ∨ quote = '\'')
      (hclosed : quote ∉ time) (hago : Mentions "ago".toList time) :
      RelativeTime ('@' :: quote :: (time ++ [quote]))
  | before {clock blanks blanks' duration : List Char}
      (hclock : clock = "now()".toList ∨ clock = "query_end_time()".toList) (hblanks : Blanks blanks)
      (hblanks' : Blanks blanks') (hduration : Duration duration) :
      RelativeTime (clock ++ (blanks ++ '-' :: (blanks' ++ duration)))

/-- A filter for the events after a time relative to now. -/
inductive TimeFilter : List Char → Prop where
  | intro {blanks column blanks' bound blanks'' time : List Char} (hne : blanks ≠ [])
      (hblanks : Blanks blanks) (hcolumn : String.ofList column ∈ timeColumns)
      (hblanks' : Blanks blanks') (hbound : bound = ">".toList ∨ bound = ">=".toList)
      (hblanks'' : Blanks blanks'') (htime : RelativeTime time) :
      TimeFilter ("filter".toList ++ (blanks ++ (column ++ (blanks' ++ (bound ++ (blanks'' ++ time))))))

/-! ## Reading it -/

theorem dropStart?_eq_some {start text rest : List Char} :
    dropStart? start text = some rest ↔ text = start ++ rest := by
  rw [dropStart?]
  constructor
  · intro h
    split at h
    · rename_i hstart
      obtain ⟨behind, rfl⟩ := List.isPrefixOf_iff_prefix.mp hstart
      rw [List.drop_left, Option.some.injEq] at h
      rw [h]
    · simp at h
  · rintro rfl
    rw [if_pos (by simp), List.drop_left]

theorem mentions_iff_from {word : List Char} (hne : word ≠ [])
    (hword : ∀ c ∈ word, isWordChar c = true) (previous : Option Char) (text : List Char) :
    mentions word previous text = true ↔
      ∃ front back, text = front ++ (word ++ back) ∧
        (∀ c ∈ front.getLast?.or previous, isWordChar c = false) ∧
        ∀ c ∈ back.head?, isWordChar c = false := by
  induction text generalizing previous with
  | nil => simp [mentions, hne]
  | cons c rest ih =>
      have hjoins : joinsWord previous = false ↔ ∀ c ∈ previous, isWordChar c = false := by
        cases previous <;> simp [joinsWord]
      rw [mentions, Bool.or_eq_true, ih, Bool.and_eq_true, Bool.not_eq_true', hjoins, beq_iff_eq,
        takeWhile_eq_iff hword]
      constructor
      · rintro (⟨hprevious, back, htext, hback⟩ | ⟨front, back, rfl, hfront, hback⟩)
        · exact ⟨[], back, htext, hprevious, hback⟩
        · exact ⟨c :: front, back, rfl, by rwa [getLast?_cons_or], hback⟩
      · rintro ⟨front, back, htext, hfront, hback⟩
        cases front with
        | nil => exact .inl ⟨hfront, back, htext, hback⟩
        | cons d front =>
            obtain ⟨rfl, rfl⟩ := List.cons.inj htext
            exact .inr ⟨front, back, rfl, by rwa [getLast?_cons_or] at hfront, hback⟩

theorem mentions_iff (text : List Char) :
    mentions "ago".toList none text = true ↔ Mentions "ago".toList text := by
  have hword : ∀ c ∈ "ago".toList, isWordChar c = true := by
    have hname : ∀ c ∈ ['a', 'g', 'o'], isNameChar c = true := by simp; decide
    exact fun c hc => isWordChar_of_isNameChar (hname c hc)
  rw [mentions_iff_from (by decide) hword]
  simp only [Option.or_none]
  rfl

theorem isTimeAgo_iff (text : List Char) : isTimeAgo text = true ↔
    ∃ quote time, text = quote :: (time ++ [quote]) ∧ (quote = '"' ∨ quote = '\'') ∧
      quote ∉ time ∧ Mentions "ago".toList time := by
  cases text with
  | nil => simp [isTimeAgo]
  | cons quote rest =>
      rw [isTimeAgo]
      simp only [Bool.and_eq_true, Bool.or_eq_true, beq_iff_eq, mentions_iff, drop_length_takeWhile]
      constructor
      · rintro ⟨⟨hquote, hclosing⟩, hago⟩
        refine ⟨quote, _, ?_, hquote, ?_, hago⟩
        · rw [← hclosing, List.takeWhile_append_dropWhile]
        · intro hmem
          simpa using List.mem_takeWhile_imp hmem
      · rintro ⟨quote', time, heq, hquote, hclosed, hago⟩
        obtain ⟨rfl, rfl⟩ := List.cons.inj heq
        have hpass : ∀ c ∈ time, (c != quote) = true := by
          intro c hc
          simp only [bne_iff_ne]
          rintro rfl
          exact hclosed hc
        rw [List.takeWhile_append_of_pos hpass, List.dropWhile_append_of_pos hpass]
        simpa using ⟨hquote, hago⟩

/-! ## Durations -/

theorem isAlpha_cases {c : Char} (h : c.isAlpha = true) :
    isDecimalDigit c = false ∧ isBlank c = false ∧ c ≠ '.' := by
  have hname : isNameChar c = true := by simp [isNameChar, Char.isAlphanum, h]
  rw [isAlpha_iff] at h
  refine ⟨?_, ?_, ?_⟩
  · rw [isDecimalDigit, if_pos (by omega), ← Bool.not_eq_true, isDigit_iff]
    omega
  · exact isBlank_of_isNameChar hname
  · rintro rfl
    revert hname
    decide

theorem head_of_unit {blanks unit : List Char} (hblanks : Blanks blanks)
    (hunit : ∀ c ∈ unit, c.isAlpha = true) :
    ∀ c ∈ (blanks ++ unit).head?, isDecimalDigit c = false ∧ c ≠ '.' := by
  intro c hc
  have hmem := List.mem_of_mem_head? hc
  rcases List.mem_append.mp hmem with hblank | hletter
  · refine ⟨isDecimalDigit_of_isBlank (hblanks c hblank), ?_⟩
    rintro rfl
    exact absurd (hblanks _ hblank) (by decide)
  · exact ⟨(isAlpha_cases (hunit c hletter)).1, (isAlpha_cases (hunit c hletter)).2.2⟩

def behindAmount (text : List Char) : List Char :=
  match text.dropWhile isDecimalDigit with
  | '.' :: rest =>
    if rest.head?.any isDecimalDigit then rest.dropWhile isDecimalDigit else '.' :: rest
  | behind => behind

theorem isDuration_eq (text : List Char) : isDuration text =
    (text.head?.any isDecimalDigit && !(trimStart (behindAmount text)).isEmpty &&
      (trimStart (behindAmount text)).all Char.isAlpha) := by
  unfold isDuration behindAmount
  split
  · rename_i rest hrest
    simp only [hrest]
  · rename_i hother
    dsimp only
    split
    · rename_i rest hrest
      exact absurd hrest (hother rest)
    · rfl

theorem exists_amount {text : List Char} (h : text.head?.any isDecimalDigit = true) :
    ∃ number, Amount number ∧ text = number ++ behindAmount text := by
  have hrun {text : List Char} (h : text.head?.any isDecimalDigit = true) :
      text.takeWhile isDecimalDigit ≠ [] := by
    cases text with
    | nil => simp at h
    | cons c text => simpa using h
  have hdigits {text : List Char} : ∀ c ∈ text.takeWhile isDecimalDigit, isDecimalDigit c = true :=
    fun c hc => List.mem_takeWhile_imp hc
  have htext := (List.takeWhile_append_dropWhile (p := isDecimalDigit) (l := text)).symm
  rw [behindAmount]
  split
  · rename_i rest hrest
    rw [hrest] at htext
    split
    · rename_i hfraction
      refine ⟨_, .fraction (hrun h) hdigits (hrun hfraction) hdigits, ?_⟩
      rw [List.append_assoc, List.cons_append, List.takeWhile_append_dropWhile]
      exact htext
    · exact ⟨_, .whole (hrun h) hdigits, htext⟩
  · exact ⟨_, .whole (hrun h) hdigits, htext⟩

theorem behindAmount_append {number rest : List Char} (hnumber : Amount number)
    (hrest : ∀ c ∈ rest.head?, isDecimalDigit c = false ∧ c ≠ '.') :
    behindAmount (number ++ rest) = rest ∧ (number ++ rest).head?.any isDecimalDigit = true := by
  have hhead {digits back : List Char} (hne : digits ≠ [])
      (hdigits : ∀ c ∈ digits, isDecimalDigit c = true) :
      (digits ++ back).head?.any isDecimalDigit = true := by
    obtain ⟨c, digits, rfl⟩ := List.exists_cons_of_ne_nil hne
    simp [hdigits c (by simp)]
  have hstop : ∀ c ∈ rest.head?, isDecimalDigit c = false := fun c hc => (hrest c hc).1
  cases hnumber with
  | whole hne hdigits =>
      refine ⟨?_, hhead hne hdigits⟩
      rw [behindAmount, dropWhile_stop hdigits hstop]
      split
      · exact absurd rfl (hrest '.' (by simp)).2
      · rfl
  | fraction hne hdigits hmore hfraction =>
      refine ⟨?_, by rw [List.append_assoc]; exact hhead hne hdigits⟩
      rw [behindAmount, List.append_assoc, List.cons_append,
        dropWhile_stop hdigits (by simp; decide)]
      exact (if_pos (hhead hmore hfraction)).trans (dropWhile_stop hfraction hstop)

theorem isDuration_iff (text : List Char) : isDuration text = true ↔ Duration text := by
  rw [isDuration_eq]
  simp only [Bool.and_eq_true, Bool.not_eq_true', List.isEmpty_eq_false_iff, List.all_eq_true]
  constructor
  · rintro ⟨⟨hhead, hne⟩, hunit⟩
    obtain ⟨number, hnumber, htext⟩ := exists_amount hhead
    obtain ⟨blanks, hblanks, hbehind⟩ := exists_blanks (behindAmount text)
    rw [htext, hbehind]
    exact .intro hnumber hblanks hne hunit
  · rintro ⟨hnumber, hblanks, hne, hunit⟩
    obtain ⟨hbehind, hhead⟩ := behindAmount_append hnumber (head_of_unit hblanks hunit)
    have htrim := dropWhile_stop hblanks fun c hc =>
      (isAlpha_cases (hunit c (List.mem_of_mem_head? hc))).2.1
    rw [hbehind, trimStart, htrim]
    exact ⟨⟨hhead, hne⟩, hunit⟩

theorem Duration.head_not_blank {text : List Char} (h : Duration text) :
    ∀ c ∈ text.head?, isBlank c = false := by
  intro c hc
  rw [← isDuration_iff, isDuration_eq, Bool.and_eq_true, Bool.and_eq_true, Option.mem_def.mp hc] at h
  by_contra hblank
  simp [isDecimalDigit_of_isBlank (by simpa using hblank)] at h

/-! ## Relative times -/

theorem isTimeBeforeNow_iff (text : List Char) : isTimeBeforeNow text = true ↔
    ∃ clock blanks blanks' duration, text = clock ++ (blanks ++ '-' :: (blanks' ++ duration)) ∧
      (clock = "now()".toList ∨ clock = "query_end_time()".toList) ∧ Blanks blanks ∧
      Blanks blanks' ∧ Duration duration := by
  have hclock (rest : List Char) :
      (dropStart? "now()".toList text).or (dropStart? "query_end_time()".toList text) = some rest ↔
        ∃ clock, (clock = "now()".toList ∨ clock = "query_end_time()".toList) ∧
          text = clock ++ rest := by
    rw [Option.or_eq_some_iff, dropStart?_eq_some, dropStart?_eq_some]
    constructor
    · rintro (htext | ⟨-, htext⟩)
      · exact ⟨_, .inl rfl, htext⟩
      · exact ⟨_, .inr rfl, htext⟩
    · rintro ⟨clock, rfl | rfl, htext⟩
      · exact .inl htext
      · refine .inr ⟨?_, htext⟩
        rw [htext]
        rfl
  rw [isTimeBeforeNow, Option.any_eq_true]
  constructor
  · rintro ⟨behind, hbehind, hduration⟩
    obtain ⟨rest, hrest, hskip⟩ := Option.bind_eq_some_iff.mp hbehind
    obtain ⟨clock, hclocks, htext⟩ := (hclock rest).mp hrest
    obtain ⟨blanks, hblanks, rfl⟩ := skipTo?_eq hskip
    obtain ⟨blanks', hblanks', htrim⟩ := exists_blanks behind
    refine ⟨clock, blanks, blanks', _, ?_, hclocks, hblanks, hblanks',
      (isDuration_iff _).mp hduration⟩
    rw [← htrim, htext]
  · rintro ⟨clock, blanks, blanks', duration, htext, hclocks, hblanks, hblanks', hduration⟩
    refine ⟨blanks' ++ duration, Option.bind_eq_some_iff.mpr
      ⟨_, (hclock _).mpr ⟨clock, hclocks, htext⟩, ?_⟩, ?_⟩
    · rw [skipTo?_blanks hblanks (by decide), if_pos rfl]
    · rw [trimStart, dropWhile_stop hblanks' hduration.head_not_blank, isDuration_iff]
      exact hduration

theorem isRelativeTime_iff (text : List Char) : isRelativeTime text = true ↔ RelativeTime text := by
  unfold isRelativeTime
  split
  · rename_i time
    rw [isTimeAgo_iff]
    constructor
    · rintro ⟨quote, time, rfl, hquote, hclosed, hago⟩
      exact .ago hquote hclosed hago
    · intro h
      generalize htext : '@' :: time = text at h
      cases h with
      | ago hquote hclosed hago => exact ⟨_, _, (List.cons.inj htext).2, hquote, hclosed, hago⟩
      | before hclock => rcases hclock with rfl | rfl <;> simp at htext
  · rename_i hother
    rw [isTimeBeforeNow_iff]
    constructor
    · rintro ⟨clock, blanks, blanks', duration, rfl, hclock, hblanks, hblanks', hduration⟩
      exact .before hclock hblanks hblanks' hduration
    · intro h
      cases h with
      | ago => exact absurd rfl (hother _)
      | before hclock hblanks hblanks' hduration =>
          exact ⟨_, _, _, _, rfl, hclock, hblanks, hblanks', hduration⟩

/-! ## Filters -/

theorem name_of_mem_timeColumns {column : List Char} (h : String.ofList column ∈ timeColumns) :
    column ≠ [] ∧ ∀ c ∈ column, isNameChar c = true := by
  have hall : timeColumns.all (fun column =>
      !column.toList.isEmpty && column.toList.all isNameChar) = true := by
    decide
  have hcolumn := List.all_eq_true.mp hall _ h
  simpa using hcolumn

theorem exists_bound (text : List Char) :
    ∃ bound, (bound = ">".toList ∨ bound = ">=".toList) ∧
      '>' :: text = bound ++ (dropStart? ['='] text).getD text := by
  cases hdrop : dropStart? ['='] text with
  | none => exact ⟨_, .inl rfl, rfl⟩
  | some behind =>
      refine ⟨_, .inr rfl, ?_⟩
      rw [dropStart?_eq_some.mp hdrop]
      rfl

theorem getD_of_bound {bound rest : List Char} (hbound : bound = ">".toList ∨ bound = ">=".toList)
    (hrest : ∀ c ∈ rest.head?, c ≠ '=') :
    ∃ text, bound ++ rest = '>' :: text ∧ (dropStart? ['='] text).getD text = rest := by
  rcases hbound with rfl | rfl
  · refine ⟨rest, rfl, ?_⟩
    cases hdrop : dropStart? ['='] rest with
    | none => rfl
    | some behind =>
        rw [dropStart?_eq_some.mp hdrop] at hrest
        exact absurd rfl (hrest '=' (by simp))
  · refine ⟨'=' :: rest, rfl, ?_⟩
    rw [dropStart?_eq_some.mpr (rfl : '=' :: rest = ['='] ++ rest), Option.getD_some]

theorem RelativeTime.head_not_blank {text : List Char} (h : RelativeTime text) :
    ∀ c ∈ text.head?, isBlank c = false ∧ c ≠ '=' := by
  intro c hc
  cases h with
  | ago =>
      obtain rfl : '@' = c := by simpa using hc
      decide
  | before hclock =>
      rcases hclock with rfl | rfl
      · obtain rfl : 'n' = c := by simpa using hc
        decide
      · obtain rfl : 'q' = c := by simpa using hc
        decide

theorem timeFilter_of_isTimeFilter {text : List Char} (h : isTimeFilter text = true) :
    TimeFilter text := by
  rw [isTimeFilter] at h
  cases hfound : (dropStart? "filter".toList text).bind _ with
  | none => rw [hfound] at h; simp at h
  | some found =>
  rw [hfound] at h
  obtain rfl : found = true := h
  obtain ⟨rest, hrest, hcondition⟩ := Option.bind_eq_some_iff.mp hfound
  dsimp only at hcondition
  split at hcondition
  · rename_i hcolumn
    obtain ⟨hblank, hcolumn⟩ := Bool.and_eq_true_iff.mp hcolumn
    obtain ⟨time, hskip, htime⟩ := Option.map_eq_some_iff.mp hcondition
    rw [drop_length_takeWhile] at hskip
    obtain ⟨blanks', hblanks', hbehind⟩ := skipTo?_eq hskip
    obtain ⟨bound, hbound, htext⟩ := exists_bound time
    obtain ⟨blanks'', hblanks'', hbounded⟩ := exists_blanks ((dropStart? ['='] time).getD time)
    have hne : rest.takeWhile isBlank ≠ [] := by
      cases rest with
      | nil => simp at hblank
      | cons c rest => simpa using hblank
    have hall : text = "filter".toList ++ (rest.takeWhile isBlank ++
        ((trimStart rest).takeWhile isNameChar ++ (blanks' ++ (bound ++ (blanks'' ++
          trimStart ((dropStart? ['='] time).getD time)))))) := by
      rw [← hbounded, ← htext, ← hbehind, List.takeWhile_append_dropWhile, trimStart,
        List.takeWhile_append_dropWhile]
      exact dropStart?_eq_some.mp hrest
    rw [hall]
    exact .intro hne (fun c hc => List.mem_takeWhile_imp hc) (by simpa using hcolumn) hblanks' hbound
      hblanks'' ((isRelativeTime_iff _).mp htime)
  · simp at hcondition

theorem isTimeFilter_of_timeFilter {text : List Char} (h : TimeFilter text) :
    isTimeFilter text = true := by
  obtain ⟨hne, hblanks, hcolumn, hblanks', hbound, hblanks'', htime⟩ := h
  rename_i blanks column blanks' bound blanks'' time
  obtain ⟨hcolumnNe, hname⟩ := name_of_mem_timeColumns hcolumn
  have hbounded : ∀ c ∈ (blanks'' ++ time).head?, c ≠ '=' := by
    intro c hc
    cases blanks'' with
    | nil => exact (htime.head_not_blank c hc).2
    | cons b blanks'' =>
        obtain rfl : b = c := by simpa using hc
        rintro rfl
        have hequal := hblanks'' '=' (by simp)
        exact absurd hequal (by decide)
  obtain ⟨rest, hrest, hdrop⟩ := getD_of_bound hbound hbounded
  have hstart : ∀ c ∈ (column ++ (blanks' ++ '>' :: rest)).head?, isBlank c = false := by
    intro c hc
    obtain ⟨d, column, rfl⟩ := List.exists_cons_of_ne_nil hcolumnNe
    obtain rfl : d = c := by simpa using hc
    exact isBlank_of_isNameChar (hname d List.mem_cons_self)
  have hstop : ∀ c ∈ (blanks' ++ '>' :: rest).head?, isNameChar c = false := by
    intro c hc
    cases blanks' with
    | nil =>
        obtain rfl : '>' = c := by simpa using hc
        decide
    | cons b blanks' =>
        obtain rfl : b = c := by simpa using hc
        exact isNameChar_of_isBlank (hblanks' _ (by simp))
  have hhead : (blanks ++ (column ++ (blanks' ++ '>' :: rest))).head?.any isBlank = true := by
    obtain ⟨b, blanks, rfl⟩ := List.exists_cons_of_ne_nil hne
    simp [hblanks b (by simp)]
  have htake := (takeWhile_eq_iff hname (column ++ (blanks' ++ '>' :: rest))).mpr ⟨_, rfl, hstop⟩
  rw [hrest, isTimeFilter, dropStart?_eq_some.mpr rfl, Option.bind_some]
  dsimp only
  rw [trimStart, dropWhile_stop hblanks hstart, htake, if_pos (Bool.and_eq_true_iff.mpr ⟨hhead, by simpa using hcolumn⟩),
    List.drop_left, skipTo?_blanks hblanks' (by decide), if_pos rfl, Option.map_some,
    Option.getD_some, hdrop, trimStart,
    dropWhile_stop hblanks'' fun c hc => (htime.head_not_blank c hc).1]
  exact (isRelativeTime_iff time).mpr htime

theorem isTimeFilter_iff (text : List Char) : isTimeFilter text = true ↔ TimeFilter text :=
  ⟨timeFilter_of_isTimeFilter, isTimeFilter_of_timeFilter⟩

end OpalRepair.DropTimeFilter
