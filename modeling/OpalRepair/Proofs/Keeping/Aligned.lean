import Mathlib
import OpalRepair.Proofs.Aligning
import OpalRepair.Proofs.Keeping.Sorted

/-!
# Aligned metrics in order

The call of a metric moves as it is into an `align` stage, into a pair of parentheses.  Where it
stood there is a column, which must not be called.

Main statement: `AlignMetric.wellFormed_after`.
-/

namespace OpalRepair

open Query Text Vocabulary

namespace Query

/-! ## Words -/

namespace Word

variable {row : List Cell}

theorem after_name {run : List Char} (hrow : ∀ cell ∈ row, isWordChar cell.char = true) :
    (name run).after row = name (run ++ text row) := by
  induction row generalizing run with
  | nil => simp
  | cons cell row ih =>
      obtain ⟨hcell, hrow⟩ := List.forall_mem_cons.mp hrow
      have hstep : (name run).step cell = name (run ++ [cell.char]) := by simp [step, hcell]
      rw [after_cons, hstep, ih hrow]
      simp

theorem after_inert (hrow : ∀ cell ∈ row, isWordChar cell.char = true) :
    inert.after row = inert := by
  induction row with
  | nil => rfl
  | cons cell row ih =>
      obtain ⟨hcell, hrow⟩ := List.forall_mem_cons.mp hrow
      have hstep : inert.step cell = inert := by simp [step, hcell]
      rw [after_cons, hstep, ih hrow]

theorem after_letter {first : Cell} (hcode : first.isLiteral = false)
    (hletter : isAlphabetic first.char = true)
    (hrow : ∀ cell ∈ first :: row, isWordChar cell.char = true) :
    idle.after (first :: row) = name (text (first :: row)) := by
  obtain ⟨hfirst, hrow⟩ := List.forall_mem_cons.mp hrow
  have hstep : idle.step first = name [first.char] := by simp [step, hfirst, begin, hletter, hcode]
  rw [after_cons, hstep, after_name hrow]
  rfl

theorem pending?_of_word (hrow : ∀ cell ∈ row, isWordChar cell.char = true) :
    ∀ run ∈ (idle.after row).pending?, run = text row := by
  cases row with
  | nil => simp [pending?]
  | cons cell row =>
      obtain ⟨hcell, hrow⟩ := List.forall_mem_cons.mp hrow
      have hstep : idle.step cell = begin cell := by simp [step, hcell]
      rw [after_cons, hstep, begin]
      split_ifs
      · rw [after_name hrow]
        simp [pending?]
      · rw [after_inert hrow]
        simp [pending?]

theorem pending?_blanks (hrow : ∀ cell ∈ row, isBlank cell.char = true) (word : Word) :
    (word.after row).pending? = word.pending? := by
  induction row generalizing word with
  | nil => rfl
  | cons cell row ih =>
      obtain ⟨hcell, hrow⟩ := List.forall_mem_cons.mp hrow
      rw [after_cons, ih hrow]
      cases word <;> simp [step, isWordChar_of_isBlank hcell, hcell, pending?]

theorem after_word (hne : row ≠ []) (hrow : ∀ cell ∈ row, isWordChar cell.char = true)
    (word : Word) : (∃ run, word.after row = name run) ∨ word.after row = inert := by
  obtain ⟨front, last, rfl⟩ := row.eq_nil_or_concat'.resolve_left hne
  have hlast : isWordChar last.char = true := hrow last (by simp)
  rw [after_append, after_cons, after_nil]
  have hbegin : (∃ run, begin last = name run) ∨ begin last = inert := by
    rw [begin]
    split_ifs <;> simp
  cases word.after front with
  | name run => exact .inl ⟨run ++ [last.char], by simp [step, hlast]⟩
  | dot | inert => exact .inr (by simp [step, hlast])
  | idle | spaced run => simpa [step, hlast] using hbegin

theorem Sound.behind_word {known : List Char → Prop} {behind : List Cell}
    (h : idle.Sound known behind) (hcalled : calledAhead (text behind) = false) (hne : row ≠ [])
    (hrow : ∀ cell ∈ row, isWordChar cell.char = true) (word : Word) :
    (word.after row).Sound known behind := by
  rcases after_word hne hrow word with ⟨run, hrun⟩ | hinert
  · rw [hrun, sound_name_iff, hcalled]
    exact ⟨by simp, h.inert⟩
  · rw [hinert]
    exact h.inert

theorem Sound.rename {run other : List Char} (h : (name run).Sound Callable row)
    (hhead : ∀ c ∈ (text row).head?, isNameChar c = false) (hother : Callable other) :
    (name other).Sound Callable row := by
  rw [sound_name_iff] at h ⊢
  refine ⟨fun hcalled => ?_, h.2⟩
  have hknown := h.1 hcalled
  cases hword : (text row).takeWhile isWordChar with
  | nil => simpa using hother
  | cons c more =>
      -- The word goes on with a character that no name has.
      rw [hword] at hknown
      have hmem : c ∈ (text row).takeWhile isWordChar := by simp [hword]
      have hfirst : c ∈ (text row).head? := by
        cases htext : text row with
        | nil => simp [htext] at hword
        | cons d rest =>
            rw [htext, List.takeWhile_cons] at hword
            split at hword
            · exact congrArg some (List.cons.inj hword).1
            · simp at hword
      exact absurd hknown
        (not_callable_of_mem (by simp) (List.mem_takeWhile_imp hmem) (hhead c hfirst))

theorem Sound.admits {known : List Char → Prop} {word : Word} {blanks behind : List Cell}
    {paren : Cell} (h : word.Sound known (blanks ++ paren :: behind)) (hparen : paren.char = '(')
    (hblanks : ∀ cell ∈ blanks, isBlank cell.char = true) : ∀ run ∈ word.pending?, known run := by
  rw [sound_append, sound_cons] at h
  rw [← pending?_blanks hblanks word]
  exact h.2.1 hparen

theorem ends_open : Ends '(' := ⟨by decide, by decide, by decide⟩

theorem ends_close : Ends ')' := ⟨by decide, by decide, by decide⟩

theorem step_open (word : Word) : word.step ⟨'(', .code⟩ = idle := word.step_ends ends_open

theorem step_close (word : Word) : word.step ⟨')', .code⟩ = idle := word.step_ends ends_close

end Word

theorem forall_codeRow {p : Char → Prop} {part : List Char} (h : ∀ c ∈ part, p c) :
    ∀ cell ∈ codeRow part, p cell.char := by
  intro cell hcell
  obtain ⟨c, hc, rfl⟩ := List.mem_map.mp hcell
  exact h c hc

theorem ne_paren_of_isNameChar {c : Char} (h : isNameChar c = true) : c ≠ '(' := by
  rintro rfl
  exact absurd h (by decide)

theorem sound_codeRow {known : List Char → Prop} {name : List Char}
    (h : ∀ c ∈ name, isNameChar c = true) (word : Word) : word.Sound known (codeRow name) :=
  word.sound_of_no_paren (forall_codeRow fun c hc => ne_paren_of_isNameChar (h c hc))

theorem excess_codeRow {name : List Char} (h : ∀ c ∈ name, isNameChar c = true) (pair : Pair) :
    pair.excess (codeRow name) = 0 :=
  (neutral_codeRow fun c hc => bland_of_isNameChar (h c hc)).excess pair

theorem startsWithVerb_append {front a b : List Cell}
    (hhead : ∃ cell ∈ front.head?, isBlank cell.char = false)
    (hstop : ∃ c ∈ text front, isNameChar c = false) (h : StartsWithVerb (front ++ a)) :
    StartsWithVerb (front ++ b) := by
  have htrim (row : List Cell) : trimStart (text (front ++ row)) = text front ++ text row := by
    obtain ⟨cell, hcell, hblank⟩ := hhead
    obtain ⟨rest, rfl⟩ := List.head?_eq_some_iff.mp hcell
    simp [trimStart, hblank]
  obtain ⟨c, hc, hname⟩ := hstop
  obtain ⟨x, y, hfront⟩ := List.append_of_mem hc
  have hrun (rest : List Char) :
      (text front ++ rest).takeWhile isNameChar = x.takeWhile isNameChar := by
    rw [hfront, List.append_assoc, List.cons_append, takeWhile_stop hname]
  obtain ⟨name, hleading, hverb⟩ := h
  refine ⟨name, ?_, hverb⟩
  rw [Option.mem_def, leadingName?, htrim, hrun] at hleading ⊢
  exact hleading

end Query

namespace AlignMetric

/-! ## Calls of metrics -/

/-- In a filter the metric call is not followed by a word that is called, nor called itself. -/
def Harmless (stage : Stage) : Prop :=
  stage.verb? = some "filter" → ∀ selection ∈ selections stage,
    ∀ call ∈ callOf? stage selection, Word.calledAhead call.after = false

instance : DecidablePred Harmless := fun _ => inferInstanceAs (Decidable (_ → _))

section Call

variable {query : List Char} {selector : String} {stage : Stage}
  {before after front head inside back : List Cell} {paren close : Cell}

theorem callable_of_selector (h : metricSelectors.contains selector = true) :
    Callable selector.toList := by
  have hselector : selector = "m" ∨ selector = "m_tdigest" := by simpa [metricSelectors] using h
  rcases hselector with rfl | rfl <;> decide

theorem sound_call (h : Bytes.CallAt query selector before stage after front head inside back paren
      close) {word : Word} (hsound : word.Sound Callable (head ++ paren :: (inside ++ close :: back))) :
    Word.idle.Sound Callable (head ++ paren :: inside ++ [close]) ∧ Word.idle.Sound Callable back := by
  have hparen := Bytes.char_of_isCode h.paren_code
  have hclose := Bytes.char_of_isCode h.close_code
  obtain ⟨blanks, hblanks, hhead⟩ := h.head_text
  obtain ⟨nameRow, spaces, rfl, hname, hspaces⟩ := row_of_text hhead
  have hchars : ∀ cell ∈ nameRow, isNameChar cell.char = true := by
    intro cell hcell
    refine h.isNameChar_selector _ ?_
    rw [← hname]
    exact List.mem_map_of_mem hcell
  have hblank : ∀ cell ∈ spaces, isBlank cell.char = true := by
    intro cell hcell
    refine hblanks _ ?_
    rw [← hspaces]
    exact List.mem_map_of_mem hcell
  have hadmits : ∀ run ∈ (Word.idle.after (nameRow ++ spaces)).pending?, Callable run := by
    intro run hrun
    rw [Word.after_append, Word.pending?_blanks hblank] at hrun
    rw [Word.pending?_of_word (fun cell hcell => isWordChar_of_isNameChar (hchars cell hcell)) run hrun,
      hname]
    exact callable_of_selector h.selects
  have hnoParen : ∀ cell ∈ nameRow ++ spaces, cell.char ≠ '(' := by
    intro cell hcell hparen
    rcases List.mem_append.mp hcell with hcell | hcell
    · exact ne_paren_of_isNameChar (hchars cell hcell) hparen
    · exact absurd (hparen ▸ hblank cell hcell) (by decide)
  rw [Word.sound_append, Word.sound_cons, Word.step_ends _ (hparen ▸ Word.ends_open),
    Word.sound_append _ inside, Word.sound_cons, Word.step_ends _ (hclose ▸ Word.ends_close)]
    at hsound
  obtain ⟨-, -, hinside, -, hback⟩ := hsound
  refine ⟨?_, hback⟩
  rw [List.append_assoc, Word.sound_append, List.cons_append, Word.sound_cons,
    Word.step_ends _ (hparen ▸ Word.ends_open), Word.sound_append _ inside]
  exact ⟨Word.sound_of_no_paren _ hnoParen, fun _ => hadmits, hinside,
    Word.sound_of_no_paren _ (by simp [hclose])⟩

end Call

/-! ## Stages -/

section Stages

variable {function field : List Char} {call : List Cell}

theorem excess_alignRow (hfunction : ∀ c ∈ function, isNameChar c = true)
    (hfield : ∀ c ∈ field, isNameChar c = true) (pair : Pair) :
    pair.excess (alignRow function field call) = pair.excess call := by
  have hrow : alignRow function field call =
      codeRow ("align ".toList ++ field ++ [':'] ++ function) ++ [⟨'(', .code⟩] ++ call ++
        [⟨')', .code⟩] := by
    simp [alignRow, codeRow]
  have hbland : ∀ c ∈ "align ".toList ++ field ++ [':'] ++ function, c ∉ special := by
    intro c hc
    simp only [List.mem_append, List.mem_singleton] at hc
    rcases hc with ((hc | hc) | rfl) | hc
    · exact bland_of_isBland (rfl : isBland "align ".toList = true) c hc
    · exact bland_of_isNameChar (hfield c hc)
    · decide
    · exact bland_of_isNameChar (hfunction c hc)
  have hparens : pair.excess [⟨'(', .code⟩] + pair.excess [⟨')', .code⟩] = 0 :=
    excess_parens pair rfl rfl
  rw [hrow, Pair.excess_append, Pair.excess_append, Pair.excess_append,
    (neutral_codeRow hbland).excess]
  omega

theorem orderly_alignRow (hfunction : ∀ c ∈ function, isNameChar c = true)
    (hcallable : Callable function) (hfield : ∀ c ∈ field, isNameChar c = true)
    (hcall : Word.idle.Sound Callable call) : Orderly (alignRow function field call) where
  shut := by
    rw [alignRow, shut_append (by simp [codeRow])]
    simp [Shut, codeRow, Cell.isOpen]
  verb := by
    refine ⟨"align".toList, ?_, by decide⟩
    rw [alignRow, text_append, text_append, text_codeRow]
    rfl
  calls := by
    have hrow : alignRow function field call =
        codeRow ("align ".toList ++ field) ++ ⟨':', .code⟩ :: (codeRow function ++
          ⟨'(', .code⟩ :: (call ++ [⟨')', .code⟩])) := by
      simp [alignRow, codeRow]
    have hfront : ∀ c ∈ "align ".toList ++ field, c ≠ '(' := by
      intro c hc
      rcases List.mem_append.mp hc with hc | hc
      · rintro rfl
        simp at hc
      · exact ne_paren_of_isNameChar (hfield c hc)
    have hword : ∀ cell ∈ codeRow function, isWordChar cell.char = true :=
      forall_codeRow fun c hc => isWordChar_of_isNameChar (hfunction c hc)
    have hcolon (word : Word) : word.step ⟨':', .code⟩ = .idle :=
      word.step_ends ⟨by decide, by decide, by decide⟩
    rw [hrow, Word.sound_append, Word.sound_cons, hcolon, Word.sound_append, Word.sound_cons,
      Word.step_open, Word.sound_append]
    refine ⟨Word.sound_of_no_paren _ (forall_codeRow hfront), by simp [Word.Admits],
      sound_codeRow hfunction _, ?_, hcall, Word.sound_of_no_paren _ (by simp)⟩
    intro _ run hrun
    rw [Word.pending?_of_word hword run hrun, text_codeRow]
    exact hcallable

end Stages

section Mended

variable {query : List Char} {selector : String} {stage : Stage} {field : List Char}
  {before after front head inside back : List Cell} {paren close : Cell}

theorem excess_body (h : Bytes.CallAt query selector before stage after front head inside back paren
      close) (pair : Pair) :
    pair.excess stage.body = pair.excess front + pair.excess (head ++ paren :: inside ++ [close]) +
      pair.excess back := by
  rw [h.body, show front ++ (head ++ paren :: (inside ++ close :: back)) =
    front ++ (head ++ paren :: inside ++ [close]) ++ back by simp, Pair.excess_append,
    Pair.excess_append]

theorem shut_back (h : Bytes.CallAt query selector before stage after front head inside back paren
      close) (hshut : Shut stage.body) : Shut back := by
  cases back with
  | nil => simp [Shut]
  | cons cell back =>
      rwa [h.body, show front ++ (head ++ paren :: (inside ++ close :: cell :: back)) =
        (front ++ (head ++ paren :: (inside ++ [close]))) ++ cell :: back by simp,
        shut_append (by simp)] at hshut

theorem orderly_filter
    (h : Bytes.CallAt query selector before stage after front head inside back paren close)
    (hhead : ∃ cell ∈ front.head?, isBlank cell.char = false)
    (hstop : ∃ c ∈ text front, isNameChar c = false) (hne : field ≠ [])
    (hfield : ∀ c ∈ field, isNameChar c = true) (hcalled : Word.calledAhead (text back) = false)
    (horderly : Orderly stage.body) :
    Orderly (front ++ codeRow field ++ back) ∧ ∀ pair : Pair,
      pair.excess (head ++ paren :: inside ++ [close]) + pair.excess (front ++ codeRow field ++ back) =
        pair.excess stage.body := by
  have hrow : codeRow field ≠ [] := by simpa [codeRow] using hne
  obtain ⟨hshut, hverb, hsound⟩ := horderly
  refine ⟨⟨?_, ?_, ?_⟩, fun pair => ?_⟩
  · cases back with
    | nil =>
        rw [List.append_nil, shut_append hrow]
        intro cell hcell
        obtain ⟨c, -, rfl⟩ := List.mem_map.mp (List.mem_of_getLast? hcell)
        rfl
    | cons cell back =>
        rw [shut_append (by simp)]
        exact shut_back h hshut
  · rw [h.body] at hverb
    rw [List.append_assoc]
    exact startsWithVerb_append hhead hstop hverb
  · rw [h.body, Word.sound_append] at hsound
    rw [List.append_assoc, Word.sound_append, Word.sound_append]
    exact ⟨hsound.1, sound_codeRow hfield _, (sound_call h hsound.2).2.behind_word hcalled hrow
      (forall_codeRow fun c hc => isWordChar_of_isNameChar (hfield c hc)) _⟩
  · rw [excess_body h, Pair.excess_append pair (front ++ _), Pair.excess_append pair front,
      excess_codeRow hfield]
    omega

section Aggregated

variable {verb : String} {middle name : List Char}
  {verbRow kept gap blanks spaces tail : List Cell} {outer last : Cell}

theorem verb_of_aggregation (h : aggregationVerbs.contains verb = true) :
    (∃ c ∈ verb.toList.head?, isAlphabetic c = true) ∧
      ∃ c rest, verbBehind verb = c :: rest ∧ isAlphabetic c = true ∧ isBlank c = false ∧
        c.isDigit = false ∧ (∀ d ∈ verbBehind verb, isNameChar d = true) ∧
        verbs.contains (String.ofList (verbBehind verb)) = true ∧ Callable (verbBehind verb) := by
  have hverb : verb = "statsby" ∨ verb = "timechart" ∨ verb = "timestats" ∨ verb = "aggregate" := by
    simpa [aggregationVerbs] using h
  have hnames {word : String} (hword : word.toList.all isNameChar = true) :
      ∀ c ∈ word.toList, isNameChar c = true := List.all_eq_true.mp hword
  rcases hverb with rfl | rfl | rfl | rfl <;>
    exact ⟨⟨_, rfl, by decide⟩, _, _, rfl, by decide, by decide, by decide,
      hnames (by decide +kernel), by decide +kernel, by decide +kernel⟩

theorem Aggregated.head_kept
    (hparts : Aggregated verb middle name front back verbRow kept gap blanks spaces tail outer last)
    (h : Bytes.CallAt query selector before stage after front head inside back paren close)
    (hverb : stage.verb? = some verb) :
    ∃ c rest, text kept = c :: rest ∧ isNameChar c = false := by
  obtain ⟨hrun, -⟩ := h.standing.trimmed.text_of_verb? hverb
  obtain ⟨d, hd, -⟩ := hparts.stops
  obtain ⟨c, rest, rfl⟩ : ∃ c rest, middle = c :: rest :=
    List.exists_cons_of_ne_nil (by rintro rfl; simp at hd)
  refine ⟨c, rest ++ name, hparts.kept, ?_⟩
  by_contra hname
  have htext : stage.text = verb.toList ++ (c :: (rest ++ name) ++ (text (gap ++ outer :: blanks) ++
      text (head ++ paren :: (inside ++ close :: back)))) := by
    rw [Stage.text, h.body, hparts.front]
    simp [hparts.verb, hparts.kept]
  rw [htext, List.takeWhile_append_of_pos fun e he => List.mem_takeWhile_imp (hrun.symm ▸ he),
    List.append_right_eq_self, List.cons_append, List.takeWhile_cons_of_pos (by simpa using hname)] at hrun
  simp at hrun

theorem Aggregated.isNameChar_verb
    (hparts : Aggregated verb middle name front back verbRow kept gap blanks spaces tail outer last)
    (h : Bytes.CallAt query selector before stage after front head inside back paren close)
    (hverb : stage.verb? = some verb) : ∀ cell ∈ verbRow, isNameChar cell.char = true := by
  obtain ⟨hrun, -⟩ := h.standing.trimmed.text_of_verb? hverb
  intro cell hcell
  have hchar : cell.char ∈ text verbRow := List.mem_map_of_mem hcell
  rw [hparts.verb, ← hrun] at hchar
  exact List.mem_takeWhile_imp hchar

theorem Aggregated.exists_verb
    (hparts : Aggregated verb middle name front back verbRow kept gap blanks spaces tail outer last)
    (h : Bytes.CallAt query selector before stage after front head inside back paren close)
    (hplace : (before, stage) ∈ places query) (hverb : stage.verb? = some verb) :
    ∃ first rest, verbRow = first :: rest ∧ first.isLiteral = false ∧
      ∀ c ∈ verb.toList.head?, first.char = c := by
  obtain ⟨first, more, hbody, -, hcode⟩ := exists_first_of_verb? hplace hverb
  have hne := (h.standing.trimmed.text_of_verb? hverb).2
  obtain ⟨cell, rest, rfl⟩ : ∃ cell rest, verbRow = cell :: rest :=
    List.exists_cons_of_ne_nil (by rintro rfl; exact hne hparts.verb.symm)
  rw [h.body, hparts.front, List.cons_append, List.cons_append, List.cons.injEq] at hbody
  refine ⟨cell, rest, rfl, hbody.1 ▸ hcode, fun c hc => ?_⟩
  rw [← hparts.verb] at hc
  simpa using hc

theorem Aggregated.outer_code
    (hparts : Aggregated verb middle name front back verbRow kept gap blanks spaces tail outer last)
    (h : Bytes.CallAt query selector before stage after front head inside back paren close) :
    outer.isLiteral = false := by
  obtain ⟨first, more, rfl, hliteral, -⟩ := h.exists_head
  have hcells : cells query = (before ++ verbRow ++ kept ++ gap) ++ outer :: (blanks ++ first ::
      (more ++ paren :: inside ++ close :: back ++ (stage.gap ++ after))) := by
    rw [h.cells_eq, hparts.front]
    simp
  exact isLiteral_of_blanks_behind hcells hparts.outer hparts.blanks hliteral

theorem excess_blanks {row : List Cell} (hrow : ∀ cell ∈ row, isBlank cell.char = true)
    (pair : Pair) : pair.excess row = 0 :=
  excess_of_inert (fun cell hcell => inert_of_isBlank (hrow cell hcell)) pair

theorem Aggregated.excess_front
    (hparts : Aggregated verb middle name front back verbRow kept gap blanks spaces tail outer last)
    (hverb : ∀ cell ∈ verbRow, isNameChar cell.char = true) (pair : Pair) :
    pair.excess front = pair.excess kept + pair.excess [outer] := by
  have hverbRow : pair.excess verbRow = 0 := by
    refine (neutral_of_flat fun cell hcell => .inl ?_).excess pair
    exact not_isDelimiter_of_bland (bland_of_isNameChar (hverb cell hcell))
  rw [hparts.front, Pair.excess_append, Pair.excess_append, Pair.excess_append,
    Pair.excess_cons pair outer, hverbRow, excess_blanks hparts.gap, excess_blanks hparts.blanks]
  omega

theorem Aggregated.excess_back
    (hparts : Aggregated verb middle name front back verbRow kept gap blanks spaces tail outer last)
    (pair : Pair) : pair.excess back = pair.excess [last] + pair.excess tail := by
  rw [hparts.back, Pair.excess_append, Pair.excess_cons pair last, excess_blanks hparts.spaces,
    zero_add]

theorem orderly_aggregate
    (h : Bytes.CallAt query selector before stage after front head inside back paren close)
    (hplace : (before, stage) ∈ places query)
    (hparts : Aggregated verb middle name front back verbRow kept gap blanks spaces tail outer last)
    (hverb : stage.verb? = some verb) (haggregation : aggregationVerbs.contains verb = true)
    (hfield : ∀ c ∈ field, isNameChar c = true) (horderly : Orderly stage.body) :
    Orderly (codeRow (verbBehind verb) ++ kept ++ codeRow ('(' :: field ++ [')']) ++ tail) ∧
      ∀ pair : Pair, pair.excess (head ++ paren :: inside ++ [close]) +
          pair.excess (codeRow (verbBehind verb) ++ kept ++ codeRow ('(' :: field ++ [')']) ++ tail) =
        pair.excess stage.body := by
  obtain ⟨⟨d, hd, hletter⟩, c, rest, hbehind, hc, hblank, hdigit, hletters, hknown, hcallable⟩ :=
    verb_of_aggregation haggregation
  obtain ⟨e, more, hkept, he⟩ := hparts.head_kept h hverb
  obtain ⟨hshut, -, hsound⟩ := horderly
  have hverbRow := hparts.isNameChar_verb h hverb
  have houter := hparts.outer_code h
  have hrow : codeRow (verbBehind verb) ++ kept ++ codeRow ('(' :: field ++ [')']) ++ tail =
      codeRow (verbBehind verb) ++ (kept ++ (⟨'(', .code⟩ :: (codeRow field ++
        ⟨')', .code⟩ :: tail))) := by
    simp [codeRow]
  rw [hrow]
  refine ⟨⟨?_, ?_, ?_⟩, fun pair => ?_⟩
  · rw [shut_append (by simp), shut_append (by simp), ← List.singleton_append,
      shut_append (by simp), shut_append (by simp)]
    cases tail with
    | nil => simp [Shut, Cell.isOpen]
    | cons cell tail =>
        have hback := shut_back h hshut
        rw [hparts.back, List.append_cons, shut_append (by simp)] at hback
        rwa [← List.singleton_append, shut_append (by simp)]
  · refine ⟨verbBehind verb, ?_, hknown⟩
    have htext : text (codeRow (verbBehind verb) ++ (kept ++ (⟨'(', .code⟩ :: (codeRow field ++
        ⟨')', .code⟩ :: tail)))) = verbBehind verb ++ e :: (more ++ '(' :: (field ++ ')' :: text tail)) := by
      simp [hkept]
    have htrim : trimStart (verbBehind verb ++ e :: (more ++ '(' :: (field ++ ')' :: text tail))) =
        verbBehind verb ++ e :: (more ++ '(' :: (field ++ ')' :: text tail)) := by
      rw [hbehind, List.cons_append, trimStart, List.dropWhile_cons_of_neg (by simp [hblank])]
    rw [htext, Option.mem_def, leadingName?, htrim, takeWhile_stop he,
      List.takeWhile_eq_self_iff.mpr hletters, hbehind]
    simp [hdigit]
  · obtain ⟨-, hback⟩ := sound_call h (by rw [h.body, Word.sound_append] at hsound; exact hsound.2)
    rw [hparts.back, Word.sound_append, Word.sound_cons,
      Word.step_ends _ (Bytes.char_of_isCode hparts.last ▸ Word.ends_close)] at hback
    have hverbName : Word.idle.after verbRow = .name verb.toList := by
      obtain ⟨first, others, rfl, hcode, hfirst⟩ := hparts.exists_verb h hplace hverb
      rw [Word.after_letter hcode (by rw [hfirst d hd]; exact hletter)
        fun cell hcell => isWordChar_of_isNameChar (hverbRow cell hcell), hparts.verb]
    have hbehindName : Word.idle.after (codeRow (verbBehind verb)) = .name (verbBehind verb) := by
      have hwords : ∀ cell ∈ codeRow (verbBehind verb), isWordChar cell.char = true :=
        forall_codeRow fun d hd => isWordChar_of_isNameChar (hletters d hd)
      rw [hbehind] at hwords ⊢
      rw [codeRow, List.map_cons, Word.after_letter rfl hc hwords]
      exact congrArg _ (text_codeRow (c :: rest))
    have hrenamed : (Word.name (verbBehind verb)).Sound Callable (kept ++ (gap ++ outer ::
        (blanks ++ (head ++ paren :: (inside ++ close :: back))))) := by
      rw [h.body, hparts.front, show verbRow ++ (kept ++ (gap ++ outer :: blanks)) ++
        (head ++ paren :: (inside ++ close :: back)) = verbRow ++ (kept ++ (gap ++ outer ::
          (blanks ++ (head ++ paren :: (inside ++ close :: back))))) by simp, Word.sound_append,
        hverbName] at hsound
      refine hsound.2.rename ?_ hcallable
      simp [hkept, he]
    rw [Word.sound_append] at hrenamed
    rw [Word.sound_append, hbehindName, Word.sound_append, Word.sound_cons, Word.step_open,
      Word.sound_append, Word.sound_cons, Word.step_close]
    exact ⟨sound_codeRow hletters _, hrenamed.1,
      fun _ => hrenamed.2.admits hparts.outer hparts.gap, sound_codeRow hfield _,
      by simp [Word.Admits], hback.2.2⟩
  · rw [excess_body h, hparts.excess_front hverbRow, hparts.excess_back,
      Pair.excess_append pair (codeRow (verbBehind verb)), excess_codeRow hletters,
      Pair.excess_append pair kept, Pair.excess_cons pair _ (codeRow field ++ _),
      Pair.excess_append pair (codeRow field), excess_codeRow hfield, Pair.excess_cons pair _ tail]
    have hold : pair.excess [outer] + pair.excess [last] = 0 :=
      excess_parens pair (by simp [Cell.isCode, hparts.outer, houter]) hparts.last
    have hnew : pair.excess [⟨'(', .code⟩] + pair.excess [⟨')', .code⟩] = 0 :=
      excess_parens pair rfl rfl
    omega

end Aggregated

end Mended

theorem callable_of_function {name : List Char}
    (h : functions.contains (String.ofList name) = true) : Callable name := by
  simp only [Callable, isCallable, h, Bool.true_or]

theorem exists_orderly {query : List Char} {pre post : List Stage} {stage : Stage}
    {selection : Selection} {replacement output : List Char}
    (hstages : (layout query).stages = pre ++ stage :: post)
    (hone : selections stage = [selection]) (hmend : mendStage? stage = some replacement)
    (houtput : output = text ((layout query).lead ++ pre.flatMap Stage.cells) ++ replacement ++
      text (stage.gap ++ post.flatMap Stage.cells))
    (hharmless : Harmless stage) (horderly : Orderly stage.body) :
    ∃ first second : Stage, layout output = ⟨(layout query).lead, pre ++ first :: second :: post⟩ ∧
      Orderly first.body ∧ Orderly second.body ∧ ∀ pair : Pair,
        pair.excess first.body + pair.excess second.body = pair.excess stage.body := by
  have hplace : ((layout query).lead ++ pre.flatMap Stage.cells, stage) ∈ places query := by
    rw [places_eq hstages]
    simp
  obtain ⟨call, verb, hcall, hverb, hcases⟩ := mendStage?_eq_some hone hmend
  obtain ⟨front, head, inside, back, paren, close, metric, h, -, -, rfl, hlast⟩ :=
    exists_callAt (standing_of_stages hstages) (by rw [hone]; simp) hcall
  obtain ⟨hfield, c, hc, -⟩ := column_name metric
  have hfieldNe : column metric ≠ [] := by
    intro hnil
    simp [hnil] at hc
  have hcallSound := (sound_call h (by
    have hsound := horderly.calls
    rw [h.body, Word.sound_append] at hsound
    exact hsound.2)).1
  rcases hcases with ⟨rfl, hfilter⟩ | ⟨haggregation, haggregate⟩
  · obtain ⟨hselector, rfl⟩ := alignFilter?_eq_some hfilter
    obtain ⟨first, rest, hfront, hname, -⟩ := h.exists_front hplace hverb (by decide)
    have havg : ∀ c ∈ "avg".toList, isNameChar c = true := by simp; decide
    have hhead : ∃ cell ∈ front.head?, isBlank cell.char = false :=
      ⟨first, by simp [hfront], (solid_of_isNameChar hname).2.1⟩
    have hstop : ∃ c ∈ text front, isNameChar c = false := by
      have hne : text front ≠ [] := by simp [hfront]
      exact ⟨_, List.getLast_mem hne, hlast _ (List.getLast?_eq_some_getLast hne)⟩
    have hcalled : Word.calledAhead (text back) = false :=
      hharmless hverb selection (by simp [hone]) _ hcall
    obtain ⟨hnew, hexcess⟩ := orderly_filter h hhead hstop hfieldNe hfield hcalled horderly
    refine ⟨_, _, layout_filter hstages (hselector ▸ h) hverb hlast havg metric houtput,
      orderly_alignRow havg (by decide) hfield hcallSound, hnew, fun pair => ?_⟩
    rw [excess_alignRow havg hfield]
    exact hexcess pair
  · obtain ⟨middle, name, verbRow, kept, gap, blanks, spaces, tail, outer, last, hparts, rfl⟩ :=
      exists_aggregated h hverb haggregation ⟨rfl, rfl⟩ haggregate
    obtain ⟨hnew, hexcess⟩ := orderly_aggregate h hplace hparts hverb haggregation hfield horderly
    refine ⟨_, _, hparts.layout_eq hstages h hverb metric houtput,
      orderly_alignRow hparts.named (callable_of_function hparts.function) hfield hcallSound, hnew,
      fun pair => ?_⟩
    rw [excess_alignRow hparts.named hfield]
    exact hexcess pair

theorem wellFormed_after {query : List Char} (h : WellFormed query)
    (hchanges : (patch query).changes ≠ [])
    (hharmless : ∀ stage ∈ (layout query).stages, Harmless stage) :
    WellFormed (patch query).after := by
  obtain ⟨pre, stage, post, selection, replacement, hstages, hone, hmend, -, hafter⟩ :=
    exists_mended hchanges
  obtain ⟨hpairs, horderly⟩ := (wellFormed_iff_orderly query).mp h
  rw [hstages] at hpairs horderly hharmless
  obtain ⟨first, second, hlayout, hfirst, hsecond, hexcess⟩ :=
    exists_orderly hstages hone hmend hafter (hharmless stage (by simp)) (horderly stage (by simp))
  rw [wellFormed_iff_orderly, hlayout]
  dsimp only
  refine ⟨fun pair => ?_, fun other hother => ?_⟩
  · have hsum := hpairs pair
    have hsame := hexcess pair
    simp only [List.map_append, List.map_cons, List.sum_append, List.sum_cons] at hsum ⊢
    omega
  · simp only [List.mem_append, List.mem_cons] at hother
    rcases hother with hother | rfl | rfl | hother
    · exact horderly other (by simp [hother])
    · exact hfirst
    · exact hsecond
    · exact horderly other (by simp [hother])

end AlignMetric

end OpalRepair
