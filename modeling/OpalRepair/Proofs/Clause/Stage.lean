import Mathlib
import OpalRepair.Pass.Standard
import OpalRepair.Proofs.Clause.Checks
import OpalRepair.Proofs.Clause.Fragment

/-!
# Clauses as stages

Three passes replace or drop whole stages.  On clauses they replace or drop clauses.
-/

namespace OpalRepair

open Query Text Vocabulary

/-! ## Replacing stages -/

namespace Clause

theorem render_append {a b : List Clause} (ha : a ≠ []) (hb : b ≠ []) :
    render (a ++ b) = render a ++ (" | ".toList ++ render b) := by
  induction a with
  | nil => exact absurd rfl ha
  | cons clause a ih =>
      cases a with
      | nil =>
          obtain ⟨next, b, rfl⟩ := List.exists_cons_of_ne_nil hb
          rw [List.singleton_append, render_cons_cons, render_singleton, List.append_assoc]
      | cons next a =>
          have hrest := ih (List.cons_ne_nil next a)
          rw [List.cons_append] at hrest
          rw [List.cons_append, List.cons_append, render_cons_cons, render_cons_cons, hrest]
          simp only [List.append_assoc]

theorem after_pieces (mend? : Stage → Option (List Char)) (stage : Stage) :
    Patch.after (stage.pieces mend?) = (mend? stage).getD stage.text ++ Query.text stage.gap := by
  unfold Stage.pieces
  cases mend? stage <;> simp

theorem after_ofStages {mend? : Stage → Option (List Char)} {split : Clause → List Clause}
    {clauses : List Clause} (h : ∀ clause ∈ clauses, split clause ≠ [] ∧
      ∀ gap, (mend? ⟨clause.row, gap⟩).getD clause.text = render (split clause)) :
    (Patch.ofStages mend? ⟨[], stages clauses⟩).after = render (clauses.flatMap split) := by
  change Patch.after ((stages clauses).flatMap (Stage.pieces mend?)) = _
  induction clauses with
  | nil => rfl
  | cons clause clauses ih =>
      obtain ⟨hne, hclause⟩ := h clause (by simp)
      have hpieces (gap : List Cell) :
          Patch.after (Stage.pieces mend? ⟨clause.row, gap⟩) =
            render (split clause) ++ Query.text gap := by
        rw [after_pieces, Stage.text, clause.text_row, hclause]
      cases clauses with
      | nil => simp [stages, hpieces]
      | cons next clauses =>
          have hrest := ih fun c hc => h c (by simp [hc])
          have hnext : (next :: clauses).flatMap split ≠ [] := by
            have := (h next (by simp)).1
            simp [this]
          rw [stages, List.flatMap_cons, Patch.after_append, hpieces, hrest, List.append_assoc]
          exact (render_append hne hnext).symm

theorem changes_ofStages {mend? : Stage → Option (List Char)} {clauses : List Clause}
    (h : ∀ clause ∈ clauses, ∀ gap, mend? ⟨clause.row, gap⟩ = none) :
    (Patch.ofStages mend? ⟨[], stages clauses⟩).changes = [] := by
  change Patch.changes ((stages clauses).flatMap (Stage.pieces mend?)) = _
  induction clauses with
  | nil => rfl
  | cons clause clauses ih =>
      have hpieces (gap : List Cell) : Patch.changes (Stage.pieces mend? ⟨clause.row, gap⟩) = [] := by
        rw [Stage.pieces, h clause (by simp)]
        rfl
      cases clauses with
      | nil => simp [stages, hpieces]
      | cons next clauses =>
          rw [stages, List.flatMap_cons, Patch.changes_append, hpieces,
            ih fun c hc => h c (by simp [hc])]
          rfl

end Clause

/-! ## Sorting -/

namespace SortCall

def mendClause : Clause → Clause
  | .mistake (.minus field) => .clean (.descends field)
  | clause => clause

theorem splitCommas_of_no_comma {row : List Cell} (h : ∀ cell ∈ row, cell.isCode ',' = false)
    (depth : Int) : splitCommas depth row = [row] := by
  induction row generalizing depth with
  | nil => rfl
  | cons cell row ih =>
      have hrest := ih fun c hc => h c (by simp [hc])
      simp [splitCommas, h cell, hrest]

theorem listItems_key {key : List Char} (hcomma : ',' ∉ key)
    (hhead : ∃ c ∈ key.head?, isBlank c = false) (hlast : EndsDark key) :
    listItems (codeRow (' ' :: key)) = [codeRow key] := by
  have hsplit : splitCommas 0 (codeRow (' ' :: key)) = [codeRow (' ' :: key)] := by
    refine splitCommas_of_no_comma (fun cell hcell => ?_) 0
    obtain ⟨c, hc, rfl⟩ := List.mem_map.mp hcell
    have hne : c ≠ ',' := by
      rintro rfl
      rcases List.mem_cons.mp hc with h | h
      · exact absurd h (by decide)
      · exact hcomma h
    simp [Cell.isCode, hne]
  have hrow : codeRow (' ' :: key) = [⟨' ', .code⟩] ++ codeRow key ++ [] := by simp [codeRow]
  have hcore : (∃ cell ∈ (codeRow key).head?, isBlank cell.char = false) ∧
      ∃ cell ∈ (codeRow key).getLast?, isBlank cell.char = false := by
    simpa [codeRow, EndsDark] using And.intro hhead hlast
  have htrim : trimCells (codeRow (' ' :: key)) = codeRow key := by
    rw [trimCells, hrow, dropWhile_core (by simp; decide) hcore.1,
      dropTrailing_back (by simp) hcore.2]
  have hne : (codeRow key).isEmpty = false := by
    obtain ⟨cell, hcell, -⟩ := hcore.1
    cases hkey : codeRow key with
    | nil => simp [hkey] at hcell
    | cons cell row => rfl
  rw [listItems, hsplit, List.map_singleton, htrim]
  simp [hne]

theorem path?_field (field : FieldName) : path? field.text = some field.text := by
  have hall := Lexeme.Named.name field
  have hstart : isNameStart field.head = true := by
    simp [isNameStart, Char.isAlpha, field.head_mem]
  have htail : ∀ c ∈ field.tail, isNameChar c = true := fun c hc => hall c (by simp [Lexeme.text, hc])
  have hdot : (field.tail.dropWhile isNameChar).head? ≠ some '.' := by
    rw [List.dropWhile_eq_nil_iff.mpr htail]
    simp
  rw [Lexeme.text, path?, if_pos hstart, ExpandTerms.pathTail_name hdot,
    List.takeWhile_eq_self_iff.mpr htail]

theorem normalize?_minus (field : FieldName) :
    normalize? ('-' :: field.text) = some ("desc(".toList ++ (field.text ++ ")".toList)) := by
  have htrim : trimStart field.text = field.text := by simpa using field.trimStart_append []
  rw [normalize?, htrim, wholePath?, path?_field]
  simp [directed]

theorem mendStage?_minus (field : FieldName) (gap : List Cell) :
    mendStage? ⟨(Clause.mistake (.minus field)).row, gap⟩ =
      some (Clause.clean (.descends field)).text := by
  have hverb : Stage.hasVerb ⟨(Clause.mistake (.minus field)).row, gap⟩ "sort" = true := by
    rw [Stage.hasVerb, Clause.verb?_row]
    rfl
  have hrow : (Clause.mistake (.minus field)).row.drop 4 = codeRow (' ' :: '-' :: field.text) := by
    simp [Clause.row, Clause.parts, Clause.verb, Mistake.verb, Clause.arguments, Mistake.arguments,
      Part.row, codeRow]
  have hcomma : ',' ∉ '-' :: field.text := by
    have := Lexeme.mark_notMem (show IsMark ',' from ⟨rfl, rfl, by decide⟩) field
    simpa using this
  have hitems := listItems_key hcomma ⟨'-', rfl, rfl⟩ (EndsDark.append ['-'] field.endsDark)
  rw [mendStage?, hverb, hrow, hitems]
  simp [normalize?_minus, Clause.text, Clause.parts, Clause.verb, Clean.verb, Clause.arguments,
    Clean.arguments, Part.text, List.intercalate]

theorem mendStage?_descends (field : FieldName) (gap : List Cell) :
    mendStage? ⟨(Clause.clean (.descends field)).row, gap⟩ = none := by
  have hrow : (Clause.clean (.descends field)).row.drop 4 =
      codeRow (' ' :: ("desc(".toList ++ (field.text ++ ")".toList))) := by
    simp [Clause.row, Clause.parts, Clause.verb, Clean.verb, Clause.arguments, Clean.arguments,
      Part.row, codeRow]
  have hcomma : ',' ∉ "desc(".toList ++ (field.text ++ ")".toList) := by
    have := Lexeme.mark_notMem (show IsMark ',' from ⟨rfl, rfl, by decide⟩) field
    simpa using this
  have hlast : EndsDark ("desc(".toList ++ (field.text ++ ")".toList)) :=
    EndsDark.append _ (EndsDark.append _ ⟨')', rfl, rfl⟩)
  have hitems := listItems_key hcomma ⟨'d', rfl, rfl⟩ hlast
  rw [mendStage?, hrow, hitems, List.map_singleton, text_codeRow]
  simp only [List.any_cons]
  split <;> rfl

theorem mendStage?_of_verb {clause : Clause} (h : clause.verb ≠ "sort") (gap : List Cell) :
    mendStage? ⟨clause.row, gap⟩ = none := by
  have hverb : Stage.hasVerb ⟨clause.row, gap⟩ "sort" = false := by
    rw [Stage.hasVerb, Clause.verb?_row]
    simpa using h
  rw [mendStage?, hverb]
  rfl

theorem sort_cases (clause : Clause) : clause.verb ≠ "sort" ∧ mendClause clause = clause ∨
    ∃ field, clause = .mistake (.minus field) ∨ clause = .clean (.descends field) := by
  rcases clause with shape | shape | shape <;> cases shape <;>
    first
    | exact .inr ⟨_, .inl rfl⟩
    | exact .inr ⟨_, .inr rfl⟩
    | exact .inl ⟨by simp [Clause.verb, Clean.verb, Mistake.verb, Mended.verb], rfl⟩

theorem mendStage?_row (clause : Clause) (gap : List Cell) :
    mendStage? ⟨clause.row, gap⟩ = none ∧ mendClause clause = clause ∨
      mendStage? ⟨clause.row, gap⟩ = some (mendClause clause).text ∧ mendClause clause ≠ clause := by
  rcases sort_cases clause with ⟨hverb, hmend⟩ | ⟨field, rfl | rfl⟩
  · exact .inl ⟨mendStage?_of_verb hverb gap, hmend⟩
  · exact .inr ⟨mendStage?_minus field gap, by simp [mendClause]⟩
  · exact .inl ⟨mendStage?_descends field gap, rfl⟩

end SortCall

theorem sortCall_turns (context : Context) (clauses : List Clause) :
    sortCall.Turns context clauses (clauses.map SortCall.mendClause) := by
  have hpatch : SortCall.patch (Clause.render clauses) =
      .ofStages SortCall.mendStage? ⟨[], Clause.stages clauses⟩ := by
    rw [SortCall.patch, Clause.layout_render]
  refine Pass.turns_ofPatch ?_ ?_ fun hmap => ?_
  · simp [SortCall.patch, layout]
  · rw [hpatch, List.map_eq_flatMap]
    refine Clause.after_ofStages fun clause _ => ⟨List.cons_ne_nil _ _, fun gap => ?_⟩
    rcases SortCall.mendStage?_row clause gap with ⟨hmend, hsame⟩ | ⟨hmend, -⟩
    · simp [hmend, hsame]
    · simp [hmend]
  · rw [hpatch]
    refine Clause.changes_ofStages fun clause hclause gap => ?_
    have hsame : SortCall.mendClause clause = clause :=
      List.map_eq_map_iff.mp (hmap.trans (List.map_id clauses).symm) clause hclause
    rcases SortCall.mendStage?_row clause gap with ⟨hmend, -⟩ | ⟨-, hne⟩
    · exact hmend
    · exact absurd hsame hne

/-! ## Time filters -/

def Clause.isRecent : Clause → Bool
  | .mistake .recent => true
  | _ => false

namespace DropTimeFilter

def mendClauses (context : Context) (clauses : List Clause) : List Clause :=
  if context.declaredWindow?.isNone || !clauses.any Clause.isRecent || clauses.all Clause.isRecent then
    clauses
  else clauses.filter (!·.isRecent)

theorem dropStart?_of_verb {clause : Clause} (h : clause.verb ≠ "filter") :
    dropStart? "filter".toList clause.text = none := by
  have hverb := clause.verb_mem
  rw [clause.text_eq_verb]
  generalize clause.verb = verb at h hverb
  simp only [Clause.verbsUsed, List.mem_cons, List.not_mem_nil, or_false] at hverb
  rcases hverb with rfl | rfl | rfl | rfl | rfl | rfl
  · exact absurd rfl h
  all_goals rfl

theorem takeWhile_field (field : FieldName) (rest : List Char) :
    (field.text ++ ' ' :: rest).takeWhile isNameChar = field.text ∧
      (field.text ++ ' ' :: rest).dropWhile isNameChar = ' ' :: rest := by
  have hall := Lexeme.Named.name field
  rw [List.takeWhile_append_of_pos hall, List.dropWhile_append_of_pos hall]
  exact ⟨List.append_nil _, rfl⟩

theorem isTimeFilter_field (field : FieldName) (rest : List Char)
    (hrest : ((skipTo? '>' (' ' :: rest)).map fun time =>
      isRelativeTime (trimStart ((dropStart? ['='] time).getD time))).getD false = false) :
    isTimeFilter ("filter ".toList ++ (field.text ++ ' ' :: rest)) = false := by
  have htrim : trimStart (' ' :: (field.text ++ ' ' :: rest)) = field.text ++ ' ' :: rest :=
    field.trimStart_append (' ' :: rest)
  obtain ⟨htake, hdrop⟩ := takeWhile_field field rest
  have hstart : dropStart? "filter".toList ("filter ".toList ++ (field.text ++ ' ' :: rest)) =
      some (' ' :: (field.text ++ ' ' :: rest)) := rfl
  rw [isTimeFilter, hstart, Option.bind_some]
  dsimp only
  rw [htrim, htake, List.drop_left]
  split
  · exact hrest
  · rfl

theorem isRelativeTime_numeral (number : Numeral) : isRelativeTime number.text = false := by
  have hne (c : Char) (hc : c.isDigit = false) : number.head ≠ c := by
    intro h
    have hdigit := number.head_mem
    rw [h, hc] at hdigit
    exact absurd hdigit (by decide)
  have hnow : dropStart? "now()".toList number.text = none := by
    simp [dropStart?, Lexeme.text, Ne.symm (hne 'n' rfl)]
  have hend : dropStart? "query_end_time()".toList number.text = none := by
    simp [dropStart?, Lexeme.text, Ne.symm (hne 'q' rfl)]
  rw [isRelativeTime, isTimeBeforeNow, hnow, hend]
  · rfl
  · intro time htime
    exact hne '@' rfl (List.cons.inj htime).1

theorem isTimeFilter_text (clause : Clause) : isTimeFilter clause.text = clause.isRecent := by
  by_cases hverb : clause.verb = "filter"
  · have htext : clause.text = "filter ".toList ++ clause.arguments.flatMap Part.text := by
      rw [clause.text_eq_verb, hverb]
      rfl
    rw [htext]
    rcases clause with shape | shape | shape <;> cases shape <;>
      simp [Clause.verb, Clean.verb, Mistake.verb, Mended.verb] at hverb
    case clean.equals field number =>
      simpa [Clause.arguments, Clean.arguments, Part.text, Clause.isRecent] using
        isTimeFilter_field field ("= ".toList ++ number.text) rfl
    case clean.exceeds field number =>
      have htrim : trimStart (' ' :: number.text) = trimStart number.text := rfl
      have hrest : isRelativeTime (trimStart (' ' :: number.text)) = false := by
        rw [htrim, ← List.append_nil number.text, number.trimStart_append, List.append_nil,
          isRelativeTime_numeral]
      simpa [Clause.arguments, Clean.arguments, Part.text, Clause.isRecent] using
        isTimeFilter_field field ("> ".toList ++ number.text) hrest
    case clean.reads field phrase =>
      simpa [Clause.arguments, Clean.arguments, Part.text, Clause.isRecent] using
        isTimeFilter_field field ("= ".toList ++ (Part.string phrase.text).text) rfl
    case mistake.recent => decide
    all_goals rfl
  · have hrecent : clause.isRecent = false := by
      unfold Clause.isRecent
      split
      · exact absurd rfl hverb
      · rfl
    rw [isTimeFilter, dropStart?_of_verb hverb, hrecent]
    rfl

theorem isRedundant_row (clause : Clause) (gap : List Cell) :
    isRedundant ⟨clause.row, gap⟩ = clause.isRecent := by
  rw [isRedundant, Stage.text, clause.text_row, isTimeFilter_text]

theorem length_redundant (clauses : List Clause) :
    ((Clause.stages clauses).filter isRedundant).length = clauses.countP Clause.isRecent := by
  have hcount {α : Type} (p : α → Bool) (xs : List α) : xs.countP p = (xs.map p).countP id := by
    rw [List.countP_map]
    rfl
  rw [← List.countP_eq_length_filter, hcount, Clause.map_stages isRedundant_row, ← hcount]

theorem join_stages (clauses : List Clause) :
    text (join [] ((Clause.stages clauses).filter (!isRedundant ·))) =
      Clause.render (clauses.filter (!·.isRecent)) ∧
    (((Clause.stages clauses).filter (!isRedundant ·)) = [] ↔
      clauses.filter (!·.isRecent) = []) := by
  induction clauses with
  | nil => exact ⟨rfl, iff_of_true rfl rfl⟩
  | cons clause clauses ih =>
      cases clauses with
      | nil =>
          rw [Clause.stages]
          cases hrecent : clause.isRecent with
          | true => simp [isRedundant_row, hrecent, join, Clause.render]
          | false => simp [isRedundant_row, hrecent, join]
      | cons next clauses =>
          obtain ⟨hjoin, hnil⟩ := ih
          rw [Clause.stages]
          cases hrecent : clause.isRecent with
          | true =>
              rw [List.filter_cons_of_neg (by simp [isRedundant_row, hrecent]),
                List.filter_cons_of_neg (by simp [hrecent])]
              exact ⟨hjoin, hnil⟩
          | false =>
              rw [List.filter_cons_of_pos (by simp [isRedundant_row, hrecent]),
                List.filter_cons_of_pos (by simp [hrecent])]
              refine ⟨?_, by simp⟩
              cases hkept : (next :: clauses).filter (!·.isRecent) with
              | nil =>
                  rw [hnil.mpr hkept]
                  simp [join]
              | cons first kept =>
                  rw [hkept] at hjoin
                  obtain ⟨stage, rest, hstages⟩ := List.exists_cons_of_ne_nil
                    fun hempty => List.cons_ne_nil first kept (hkept.symm.trans (hnil.mp hempty))
                  rw [hstages] at hjoin ⊢
                  rw [join, text_append, hjoin, Clause.render_cons_cons]
                  · simp [Stage.cells, text_append]
                    rfl
                  · simp

theorem gap_getLast?_stages (clauses : List Clause) :
    ((Clause.stages clauses).getLast?.map Stage.gap).getD [] = [] := by
  induction clauses with
  | nil => rfl
  | cons clause clauses ih =>
      cases clauses with
      | nil => rfl
      | cons next clauses =>
          have hne : Clause.stages (next :: clauses) ≠ [] := by
            rw [← List.length_pos_iff, Clause.length_stages]
            simp
          rw [Clause.stages, List.getLast?_cons_of_ne_nil hne]
          exact ih

theorem idle_iff (clauses : List Clause) :
    (((Clause.stages clauses).filter isRedundant).isEmpty ||
      ((Clause.stages clauses).filter isRedundant).length == (Clause.stages clauses).length) =
        (!clauses.any Clause.isRecent || clauses.all Clause.isRecent) := by
  have hempty : ((Clause.stages clauses).filter isRedundant).isEmpty = !clauses.any Clause.isRecent := by
    rw [Bool.eq_iff_iff, List.isEmpty_iff_length_eq_zero, length_redundant, List.countP_eq_zero]
    simp
  have hall : (((Clause.stages clauses).filter isRedundant).length == (Clause.stages clauses).length) =
      clauses.all Clause.isRecent := by
    rw [Bool.eq_iff_iff, beq_iff_eq, length_redundant, Clause.length_stages, List.countP_eq_length]
    simp
  rw [hempty, hall]

theorem apply_render (window : String) (clauses : List Clause) :
    ∃ changes rationale, apply window (String.ofList (Clause.render clauses)) =
      (if !clauses.any Clause.isRecent || clauses.all Clause.isRecent then
        .unchanged (String.ofList (Clause.render clauses))
      else .ofChanges (String.ofList (Clause.render (clauses.filter (!·.isRecent)))) "time_filter"
        changes rationale) ∧
      (changes = [] → clauses.any Clause.isRecent = false) := by
  rw [apply]
  simp only [String.toList_ofList, Clause.layout_render, idle_iff, remaining, gap_getLast?_stages,
    List.nil_append, (join_stages clauses).1]
  refine ⟨_, _, rfl, fun hchanges => ?_⟩
  rw [List.map_eq_nil_iff, ← List.length_eq_zero_iff, length_redundant, List.countP_eq_zero]
    at hchanges
  simpa using hchanges

end DropTimeFilter

theorem dropTimeFilter_turns (context : Context) (clauses : List Clause) :
    dropTimeFilter.Turns context clauses (DropTimeFilter.mendClauses context clauses) := by
  unfold DropTimeFilter.mendClauses
  cases hwindow : context.declaredWindow? with
  | none =>
      refine Pass.turns_unchanged ?_
      simp [dropTimeFilter, hwindow]
  | some window =>
      obtain ⟨changes, rationale, happly, hchanges⟩ := DropTimeFilter.apply_render window clauses
      have hpass : dropTimeFilter.apply context (String.ofList (Clause.render clauses)) =
          DropTimeFilter.apply window (String.ofList (Clause.render clauses)) := by
        simp [dropTimeFilter, hwindow]
      rw [← hpass] at happly
      rw [Option.isNone_some, Bool.false_or]
      split at happly <;> rename_i hidle
      · rw [if_pos hidle]
        exact Pass.turns_unchanged happly
      · rw [if_neg hidle]
        refine Pass.turns_of_changes happly (fun hnone => ?_) fun hsame => ?_
        · exact absurd (hchanges hnone) (by simp_all)
        · have hkept : clauses.any Clause.isRecent = false := by
            simpa using List.filter_eq_self.mp hsame
          exact absurd hkept (by simp_all)

/-! ## Metrics -/

def Clause.isMetric : Clause → Bool
  | .mistake .metric => true
  | _ => false

def Clause.isAlign : Clause → Bool
  | .mended .aligns => true
  | _ => false

namespace AlignMetric

def cpu : FieldName := ⟨'c', ['p', 'u'], rfl, List.all_eq_true.mp rfl⟩

def eighty : Numeral := ⟨'8', ['0'], rfl, List.all_eq_true.mp rfl⟩

def splitClause : Clause → List Clause
  | .mistake .metric => [.mended .aligns, .clean (.exceeds cpu eighty)]
  | clause => [clause]

def mendClauses (clauses : List Clause) : List Clause :=
  if clauses.any Clause.isAlign || clauses.countP Clause.isMetric != 1 then clauses
  else clauses.flatMap splitClause

theorem takeWhile_isWordChar {name blanks : List Char} (hname : ∀ c ∈ name, isNameChar c = true)
    (hblanks : ∀ b ∈ blanks, isBlank b = true) (rest : List Char) :
    (name ++ (blanks ++ '(' :: rest)).takeWhile isWordChar = name ∧
      (name ++ (blanks ++ '(' :: rest)).dropWhile isWordChar = blanks ++ '(' :: rest := by
  have hword : ∀ c ∈ name, isWordChar c = true := fun c hc => isWordChar_of_isNameChar (hname c hc)
  rw [List.takeWhile_append_of_pos hword, List.dropWhile_append_of_pos hword]
  cases blanks with
  | nil => exact ⟨List.append_nil _, rfl⟩
  | cons b blanks =>
      have hb := isWordChar_of_isBlank (hblanks b (by simp))
      simp [hb]

theorem calledWord?_of_selection {site : Site} {selection : Selection}
    (h : selectionAt? site = some selection) :
    calledWord? site = some selection.selector.toList := by
  obtain ⟨index, previous, row⟩ := site
  obtain ⟨hliteral, -, hmetric, head, paren, arguments, blanks, hrow, hparen, hblanks, hhead, -⟩ :=
    selectionAt?_eq_some h
  have hskip : joinsWord previous = false ∧ previous ≠ some '.' := by
    rw [selectionAt?] at h
    split at h
    · simp at h
    · rename_i hskip
      simp only [Bool.or_eq_true, not_or, Site.startsWord, Site.continuesPath] at hskip
      refine ⟨by simpa using hskip.1.2, ?_⟩
      rintro rfl
      simp at hskip
  have hselectors : ∀ name ∈ metricSelectors,
      name.toList.head? = some 'm' ∧ ∀ c ∈ name.toList, isNameChar c = true := by
    simp [metricSelectors]
    decide
  obtain ⟨hfirst, hname⟩ := hselectors _ (List.contains_iff_mem.mp hmetric)
  obtain ⟨more, hselector⟩ := List.head?_eq_some_iff.mp hfirst
  have htext : text row = selection.selector.toList ++ (blanks ++ '(' :: text arguments) := by
    rw [show row = head ++ paren :: arguments from hrow, text_append, hhead, text_cons, hparen,
      List.append_assoc]
  obtain ⟨htake, hdrop⟩ := takeWhile_isWordChar hname hblanks (text arguments)
  obtain ⟨cell, rest, rfl, hcell, -⟩ := row_of_text_cons
    (show text row = 'm' :: (more ++ (blanks ++ '(' :: text arguments)) by
      rw [htext, hselector, List.cons_append])
  have hopen : skipTo? '(' (blanks ++ '(' :: text arguments) = some (text arguments) := by
    rw [skipTo?_blanks hblanks (by decide), if_pos rfl]
  have hcode : cell.isLiteral = false := by simpa [Site.inLiteral] using hliteral
  have hletter : isAlphabetic cell.char = true := by
    rw [hcell]
    decide
  simp only [calledWord?, Site.startsWord, hskip.1, hletter, hcode, htext, htake, hdrop, hopen]
  simpa using hskip.2

theorem selections_eq_nil {clause : Clause}
    (h : ∀ name ∈ clause.calls, metricSelectors.contains name = false) (gap : List Cell) :
    selections ⟨clause.row, gap⟩ = [] := by
  have hcalls := (Word.callsOnly_iff 0 none clause.row).mpr
    (clause.sound_row.mono fun run hrun => h _ hrun)
  refine List.filterMap_eq_nil_iff.mpr fun site hsite => ?_
  by_contra hsome
  obtain ⟨selection, hselection⟩ := Option.ne_none_iff_exists'.mp hsome
  have hknown : metricSelectors.contains (String.ofList selection.selector.toList) = false :=
    hcalls site hsite _ (calledWord?_of_selection hselection)
  obtain ⟨-, -, hmetric, -⟩ := selectionAt?_eq_some hselection
  rw [String.ofList_toList, hmetric] at hknown
  exact absurd hknown (by decide)

theorem selections_row (clause : Clause) (gap : List Cell) :
    clause.isMetric = false ∧ selections ⟨clause.row, gap⟩ = [] ∨
      clause = .mistake .metric ∨ clause = .mended .aligns := by
  rcases clause with shape | shape | shape <;> cases shape <;>
    first
    | exact .inr (.inl rfl)
    | exact .inr (.inr rfl)
    | exact .inl ⟨rfl, selections_eq_nil (by
        simp [Clause.calls, Clean.calls, Mistake.calls, Mended.calls, metricSelectors]) gap⟩

theorem length_selections {clause : Clause} (h : clause.isAlign = false) (gap : List Cell) :
    (selections ⟨clause.row, gap⟩).length = if clause.isMetric then 1 else 0 := by
  rcases selections_row clause gap with ⟨hmetric, hnil⟩ | rfl | rfl
  · rw [hnil, hmetric]
    rfl
  · change ((sites (Clause.mistake .metric).row).filterMap selectionAt?).length = 1
    decide
  · exact absurd h (by decide)

theorem length_flatMap_selections {clauses : List Clause} (h : clauses.any Clause.isAlign = false) :
    ((Clause.stages clauses).flatMap selections).length = clauses.countP Clause.isMetric := by
  have hbody (clause : Clause) (gap : List Cell) : (selections ⟨clause.row, gap⟩).length =
      (selections ⟨clause.row, []⟩).length := rfl
  rw [List.length_flatMap, Clause.map_stages hbody]
  induction clauses with
  | nil => rfl
  | cons clause clauses ih =>
      rw [List.any_cons, Bool.or_eq_false_iff] at h
      rw [List.map_cons, List.sum_cons, ih h.2, length_selections h.1, List.countP_cons]
      exact Nat.add_comm _ _

theorem hasVerb_align (clause : Clause) (gap : List Cell) :
    Stage.hasVerb ⟨clause.row, gap⟩ "align" = clause.isAlign := by
  rw [Stage.hasVerb, clause.verb?_row]
  rcases clause with shape | shape | shape <;> cases shape <;> rfl

theorem mendStage?_metric (gap : List Cell) :
    mendStage? ⟨(Clause.mistake .metric).row, gap⟩ =
      some (Clause.render (splitClause (.mistake .metric))) := by
  change mendStage? ⟨(Clause.mistake .metric).row, []⟩ = _
  decide

theorem mendStage?_other {clause : Clause} (h : selections ⟨clause.row, []⟩ = []) (gap : List Cell) :
    mendStage? ⟨clause.row, gap⟩ = none := by
  change (selections ⟨clause.row, []⟩).head?.bind _ = none
  rw [h]
  rfl

theorem any_hasVerb_align (clauses : List Clause) :
    (Clause.stages clauses).any (·.hasVerb "align") = clauses.any Clause.isAlign := by
  have hany {α : Type} (p : α → Bool) (xs : List α) : xs.any p = (xs.map p).any id := by
    rw [List.any_map]
    rfl
  rw [hany, Clause.map_stages hasVerb_align, ← hany]

theorem splitClause_other {clause : Clause} (h : clause.isMetric = false) :
    splitClause clause = [clause] := by
  unfold splitClause
  split
  · exact absurd h (by decide)
  · rfl

theorem length_flatMap_splitClause (clauses : List Clause) :
    (clauses.flatMap splitClause).length = clauses.length + clauses.countP Clause.isMetric := by
  induction clauses with
  | nil => rfl
  | cons clause clauses ih =>
      have hclause : (splitClause clause).length = 1 + if clause.isMetric then 1 else 0 := by
        unfold splitClause Clause.isMetric
        split <;> rfl
      rw [List.flatMap_cons, List.length_append, ih, hclause, List.length_cons, List.countP_cons]
      omega

theorem after_metrics {clauses : List Clause} (h : clauses.any Clause.isAlign = false) :
    (Patch.ofStages mendStage? ⟨[], Clause.stages clauses⟩).after =
      Clause.render (clauses.flatMap splitClause) := by
  refine Clause.after_ofStages fun clause hclause => ⟨?_, fun gap => ?_⟩
  · unfold splitClause
    split <;> simp
  · have halign : clause.isAlign = false := by
      rw [List.any_eq_false] at h
      simpa using h clause hclause
    rcases selections_row clause [] with ⟨hmetric, hnil⟩ | rfl | rfl
    · rw [mendStage?_other hnil, splitClause_other hmetric]
      simp
    · rw [mendStage?_metric]
      rfl
    · exact absurd halign (by decide)

end AlignMetric

theorem alignMetric_turns (context : Context) (clauses : List Clause) :
    alignMetric.Turns context clauses (AlignMetric.mendClauses clauses) := by
  have hpatch : AlignMetric.patch (Clause.render clauses) =
      if clauses.any Clause.isAlign || clauses.countP Clause.isMetric != 1 then
        [.keep (Clause.render clauses)]
      else Patch.ofStages AlignMetric.mendStage? ⟨[], Clause.stages clauses⟩ := by
    rw [AlignMetric.patch, Clause.layout_render]
    dsimp only
    rw [AlignMetric.any_hasVerb_align]
    cases halign : clauses.any Clause.isAlign with
    | true => rfl
    | false => rw [AlignMetric.length_flatMap_selections halign]
  refine Pass.turns_ofPatch ?_ ?_ fun hsame => ?_
  · rw [hpatch]
    split
    · simp
    · rw [Patch.before_ofStages, ← Clause.layout_render, layout, Layout.cells_ofCells, text_cells]
  · rw [hpatch, AlignMetric.mendClauses]
    split
    · simp
    · rename_i hcond
      rw [Bool.or_eq_true, not_or] at hcond
      exact AlignMetric.after_metrics (by simpa using hcond.1)
  · rw [hpatch]
    split
    · rfl
    · rename_i hcond
      rw [AlignMetric.mendClauses, if_neg hcond] at hsame
      have hlength := congrArg List.length hsame
      rw [AlignMetric.length_flatMap_splitClause] at hlength
      simp at hcond
      omega

end OpalRepair
