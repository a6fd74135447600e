import Mathlib
import OpalRepair.Proofs.Bracket
import OpalRepair.Proofs.Verdict

/-!
# The content of literals

What stands between the delimiters of a literal is the same to every check.  A closed literal is
read from code and leaves the scanner in code, so the text around it is painted alike whatever it
contains; the checks then only see its two delimiters.
-/

namespace OpalRepair

open Query Text Vocabulary

namespace Query

/-! ## Rows with a literal in them -/

theorem isLiteral_contentRow {content : List Char} {cell : Cell} (h : cell ∈ contentRow content) :
    cell.isLiteral = true := by
  obtain ⟨c, -, rfl⟩ := List.mem_map.mp h
  rfl

theorem isLiteral_literalRow {kind : Literal} {content : List Char} {cell : Cell}
    (h : cell ∈ literalRow kind content) : cell.isLiteral = true := by
  simp only [literalRow, List.mem_cons, List.mem_append, List.not_mem_nil, or_false] at h
  rcases h with rfl | h | rfl
  · rfl
  · exact isLiteral_contentRow h
  · rfl

theorem not_isCode_of_isLiteral {cell : Cell} (h : cell.isLiteral = true) (c : Char) :
    cell.isCode c = false := by
  simp [Cell.isCode, h]

theorem not_isSeparator_of_isLiteral {cell : Cell} (h : cell.isLiteral = true) :
    cell.isSeparator = false := by
  obtain ⟨c, role⟩ := cell
  cases role <;> first | rfl | exact absurd h (by simp [Cell.isLiteral, Role.isLiteral])

theorem countP_isCode_literalRow (kind : Literal) (content : List Char) (c : Char) :
    (literalRow kind content).countP (Cell.isCode c) = 0 := by
  rw [List.countP_eq_zero]
  intro cell hcell
  simp [not_isCode_of_isLiteral (isLiteral_literalRow hcell)]

theorem nesting_literalRow (kind : Literal) (content : List Char) (depth : Nat) :
    depthAfter depth (literalRow kind content) = depth ∧
      nestingFrom depth (literalRow kind content) = depth := by
  refine nesting_of_flat (fun cell hcell => ?_) depth
  have hcode := not_isCode_of_isLiteral (isLiteral_literalRow hcell)
  simp [Cell.opens, Cell.closes, hcode]

theorem delimiter_ends (kind : Literal) : Word.Ends kind.delimiter := by
  cases kind <;> exact ⟨by decide, by decide, by decide⟩

/-! ## Calls -/

namespace Word

variable {known : List Char → Prop}

theorem pending?_step_literal {word : Word} (hword : word.pending? = none) {cell : Cell}
    (hcell : cell.isLiteral = true) : (word.step cell).pending? = none := by
  cases word <;> simp_all [step, pending?, begin] <;> split_ifs <;> rfl

theorem sound_literal {word : Word} (hword : word.pending? = none) {row : List Cell}
    (hrow : ∀ cell ∈ row, cell.isLiteral = true) : word.Sound known row := by
  induction row generalizing word with
  | nil => trivial
  | cons cell row ih =>
      have hnext := pending?_step_literal hword (hrow cell List.mem_cons_self)
      exact ⟨fun _ => by simp [hword], ih hnext fun x hx => hrow x (List.mem_cons_of_mem _ hx)⟩

theorem sound_literalRow (word : Word) (kind : Literal) (content : List Char) :
    word.Sound known (literalRow kind content) := by
  refine ⟨fun hparen => absurd hparen (by cases kind <;> simp [Literal.delimiter]), ?_⟩
  rw [step_ends word (delimiter_ends kind)]
  refine sound_literal rfl fun cell hcell => ?_
  have hmem : cell ∈ literalRow kind content := List.mem_cons_of_mem _ hcell
  exact isLiteral_literalRow hmem

theorem after_literalRow (word : Word) (kind : Literal) (content : List Char) :
    word.after (literalRow kind content) = .idle := by
  rw [literalRow, ← List.cons_append]
  exact after_ends _ _ (delimiter_ends kind)

end Word

/-! ## Stages -/

namespace Layout

theorem foldr_cons_stage (front : List Cell) (gap : List Cell) (stages : List Stage) :
    ∃ lead before start, ∀ body, front.foldr cons ⟨[], ⟨body, gap⟩ :: stages⟩ =
      ⟨lead, before ++ ⟨start ++ body, gap⟩ :: stages⟩ := by
  induction front with
  | nil => exact ⟨[], [], [], fun _ => rfl⟩
  | cons cell front ih =>
      obtain ⟨lead, before, start, hfront⟩ := ih
      cases hgap : cell.isGap with
      | true => exact ⟨cell :: lead, before, start, fun body => by simp [hfront, cons, hgap]⟩
      | false =>
          cases hlead : lead.any Cell.isSeparator with
          | true =>
              refine ⟨[], ⟨[cell], lead⟩ :: before, start, fun body => ?_⟩
              rw [List.foldr_cons, hfront, cons_first hgap (.inr hlead)]
              rfl
          | false =>
              cases before with
              | nil =>
                  refine ⟨[], [], cell :: (lead ++ start), fun body => ?_⟩
                  rw [List.foldr_cons, hfront]
                  simp [cons, hgap, hlead]
              | cons stage before =>
                  refine ⟨[], ⟨cell :: (lead ++ stage.body), stage.gap⟩ :: before, start,
                    fun body => ?_⟩
                  rw [List.foldr_cons, hfront]
                  simp [cons, hgap, hlead]

theorem isGap_delimiter (kind : Literal) (role : Role) (hrole : role ≠ .separator) :
    Cell.isGap ⟨kind.delimiter, role⟩ = false := by
  have hblank : isBlank kind.delimiter = false := (delimiter_ends kind).2.1
  simp [Cell.isGap, Cell.isSeparator, hrole, hblank]

theorem ofCells_literalRow (kind : Literal) (behind : List Cell) :
    ∃ body gap stages, ∀ content, ofCells (literalRow kind content ++ behind) =
      ⟨[], ⟨literalRow kind content ++ body, gap⟩ :: stages⟩ := by
  obtain ⟨body, gap, stages, hclosing⟩ :=
    exists_cons (isGap_delimiter kind .closing (by simp)) (ofCells behind)
  refine ⟨body, gap, stages, fun content => ?_⟩
  have hcontent : ∀ cell ∈ contentRow content, cell.isSeparator = false := by
    intro cell hcell
    obtain ⟨c, -, rfl⟩ := List.mem_map.mp hcell
    rfl
  obtain ⟨front, back, hrow, -, -, hjoin⟩ :=
    foldr_cons_join hcontent ⟨⟨kind.delimiter, .closing⟩ :: body, gap⟩ stages
  have hfront : front.any Cell.isSeparator = false := by
    rw [List.any_eq_false]
    intro cell hcell
    simp [hcontent cell (by simp [hrow, hcell])]
  have hfold : ofCells (literalRow kind content ++ behind) =
      cons ⟨kind.delimiter, .opening⟩
        ((contentRow content).foldr cons (cons ⟨kind.delimiter, .closing⟩ (ofCells behind))) := by
    simp [ofCells, literalRow]
  rw [hfold, hclosing, hjoin, cons, if_neg (by simp [isGap_delimiter])]
  simp [hfront, literalRow, hrow]

theorem exists_ofCells (front behind : List Cell) (kind : Literal) :
    ∃ lead before start body gap stages, ∀ content,
      ofCells (front ++ literalRow kind content ++ behind) =
        ⟨lead, before ++ ⟨start ++ literalRow kind content ++ body, gap⟩ :: stages⟩ := by
  obtain ⟨body, gap, stages, hliteral⟩ := ofCells_literalRow kind behind
  obtain ⟨lead, before, start, hfront⟩ := foldr_cons_stage front gap stages
  refine ⟨lead, before, start, body, gap, stages, fun content => ?_⟩
  rw [List.append_assoc, ofCells, List.foldr_append, ← ofCells, hliteral, hfront]
  simp

end Layout

theorem takeWhile_stop {p : Char → Bool} {d : Char} (hd : p d = false) (front back : List Char) :
    (front ++ d :: back).takeWhile p = front.takeWhile p := by
  induction front with
  | nil => simp [hd]
  | cons c front ih => simp only [List.cons_append, List.takeWhile_cons, ih]

theorem leadingName?_stop {d : Char} (hblank : isBlank d = false) (hname : isNameChar d = false)
    (front back : List Char) : leadingName? (front ++ d :: back) = leadingName? front := by
  have htrim : (trimStart (front ++ d :: back)).takeWhile isNameChar =
      (trimStart front).takeWhile isNameChar := by
    induction front with
    | nil => simp [trimStart, hblank, hname]
    | cons c front ih =>
        cases hc : isBlank c with
        | true => simpa [trimStart, hc] using ih
        | false =>
            simpa [trimStart, hc] using takeWhile_stop hname (c :: front) back
  rw [leadingName?, leadingName?, htrim]

theorem startsWithVerb_literal (front body : List Cell) (kind : Literal) (content : List Char) :
    StartsWithVerb (front ++ literalRow kind content ++ body) ↔ StartsWithVerb front := by
  have hname : isNameChar kind.delimiter = false := by cases kind <;> decide
  have hstop := leadingName?_stop (delimiter_ends kind).2.1 hname (text front)
    (content ++ kind.delimiter :: text body)
  rw [StartsWithVerb, StartsWithVerb, ← hstop]
  simp

/-! ## Scanning -/

section Exchange

variable {p : List Char} {kind : Literal}

theorem scan_literal (hmode : (scan p).final.mode = .code) (hescaped : (scan p).final.escaped = false)
    (hopened : Literal.openedBy? (scan p).final.last kind.delimiter = some kind) {content : List Char}
    (hback : '\\' ∉ content) (hdelimiter : kind.delimiter ∉ content) (s : List Char) :
    cells (p ++ kind.delimiter :: (content ++ kind.delimiter :: s)) =
        cells p ++ literalRow kind content ++ (Scanner.behindLiteral kind s).paint s ∧
      (scan (p ++ kind.delimiter :: (content ++ kind.delimiter :: s))).final.mode =
        ((Scanner.behindLiteral kind s).finish s).mode := by
  have hname : isNameChar kind.delimiter = false := by cases kind <;> decide
  have hstate := Scanner.alike_atCode hmode hescaped
  obtain ⟨hpaint, hfinish⟩ := Scanner.read_literal hopened hback hdelimiter s
  constructor
  · rw [cells, Scanner.paint_cut _ _ (by simpa using hname), List.append_assoc, ← hpaint]
    exact congrArg _ (hstate.paint _)
  · rw [← hfinish]
    exact ((Scanner.finish_cut _ _ (by simpa using hname)).mode).trans (hstate.finish _).mode

end Exchange

end Query

/-! ## Checks -/

structure Query.Exchanged (query query' : List Char) : Prop where
  row : ∃ front kind content content' behind,
    cells query = front ++ literalRow kind content ++ behind ∧
      cells query' = front ++ literalRow kind content' ++ behind
  mode : (scan query).final.mode = (scan query').final.mode

theorem Query.Exchanged.check {query query' : List Char} (h : Exchanged query query')
    (settings : Settings) {check : Check} (hcheck : check ∈ checks) :
    check.run settings (scan query) = .ok () → check.run settings (scan query') = .ok () := by
  obtain ⟨⟨front, kind, content, content', behind, hcells, hcells'⟩, hmode⟩ := h
  simp only [checks, List.mem_cons, List.not_mem_nil, or_false] at hcheck
  rcases hcheck with rfl | rfl | rfl | rfl | rfl | rfl
  · show balancedDelimiters _ = _ → balancedDelimiters _ = _
    rw [balancedDelimiters_eq_ok, balancedDelimiters_eq_ok, hmode, hcells, hcells']
    simp only [List.countP_append, countP_isCode_literalRow]
    exact id
  · show quoteParity _ = _ → quoteParity _ = _
    rw [quoteParity_eq_ok, quoteParity_eq_ok, hmode]
    exact id
  · show stageCount _ _ = _ → stageCount _ _ = _
    obtain ⟨lead, before, start, body, gap, stages, hstages⟩ :=
      Layout.exists_ofCells front behind kind
    rw [stageCount_eq_ok, stageCount_eq_ok]
    simp only [Scan.layout, scan, hcells, hcells', hstages]
    simp
  · show nestingBound _ _ = _ → nestingBound _ _ = _
    rw [nestingBound_eq_ok, nestingBound_eq_ok]
    simp only [scan, hcells, hcells', nestingDepth, nestingFrom_append, depthAfter_append,
      nesting_literalRow]
    exact id
  · show knownVerbs _ _ = _ → knownVerbs _ _ = _
    obtain ⟨lead, before, start, body, gap, stages, hstages⟩ :=
      Layout.exists_ofCells front behind kind
    rw [knownVerbs_eq_ok, knownVerbs_eq_ok]
    simp only [Scan.layout, scan, hcells, hcells', hstages, List.map_append, List.map_cons,
      List.forall_mem_append, List.forall_mem_cons, startsWithVerb_literal]
    exact id
  · show knownFunctions _ _ = _ → knownFunctions _ _ = _
    rw [knownFunctions_eq_ok, knownFunctions_eq_ok]
    simp only [scan, hcells, hcells', Word.sound_append, Word.after_append, Word.sound_literalRow,
      Word.after_literalRow]
    exact id

theorem Query.Exchanged.symm {query query' : List Char} (h : Exchanged query query') :
    Exchanged query' query := by
  obtain ⟨⟨front, kind, content, content', behind, hcells, hcells'⟩, hmode⟩ := h
  exact ⟨⟨front, kind, content', content, behind, hcells', hcells⟩, hmode.symm⟩

/-- The name of the first check that a query fails. -/
def firstFailure? (settings : Settings) (query : String) : Option String :=
  (checks.find? fun check => !(check.run settings (scan query.toList)).isOk).map Check.name

theorem Query.Exchanged.firstFailure? {query query' : List Char} (h : Exchanged query query')
    (settings : Settings) :
    OpalRepair.firstFailure? settings (String.ofList query) =
      OpalRepair.firstFailure? settings (String.ofList query') := by
  have hok (verdict : Verdict) : verdict.isOk = true ↔ verdict = .ok () := by
    cases verdict <;> simp [Except.isOk, Except.toBool]
  have hrun : ∀ check ∈ checks, (check.run settings (scan query)).isOk =
      (check.run settings (scan query')).isOk := by
    intro check hcheck
    rw [Bool.eq_iff_iff, hok, hok]
    exact ⟨h.check settings hcheck, h.symm.check settings hcheck⟩
  simp only [OpalRepair.firstFailure?, String.toList_ofList]
  congr 1
  exact List.find?_congr fun check hcheck => by rw [hrun check hcheck]

/-- The verdict on a query does not depend on what a closed literal contains: with other contents
the query is accepted as well, or it fails at the same check. -/
theorem verdict_ignores_content (settings : Settings) {kind : Literal}
    {p s content content' : List Char} (hmode : (scan p).final.mode = .code)
    (hescaped : (scan p).final.escaped = false)
    (hregex : kind = .regex → opensRegex (scan p).final.last = true)
    (hcontent : '\\' ∉ content ∧ kind.delimiter ∉ content)
    (hcontent' : '\\' ∉ content' ∧ kind.delimiter ∉ content') :
    let query := String.ofList (p ++ kind.delimiter :: (content ++ kind.delimiter :: s))
    let query' := String.ofList (p ++ kind.delimiter :: (content' ++ kind.delimiter :: s))
    (checkStructure settings query = .ok () ↔ checkStructure settings query' = .ok ()) ∧
      firstFailure? settings query = firstFailure? settings query' := by
  have hopened : Literal.openedBy? (scan p).final.last kind.delimiter = some kind := by
    cases kind with
    | double | single => simp [Literal.openedBy?, Literal.delimiter]
    | regex => simp [Literal.openedBy?, Literal.delimiter, hregex]
  obtain ⟨hcells, hfinal⟩ := scan_literal hmode hescaped hopened hcontent.1 hcontent.2 s
  obtain ⟨hcells', hfinal'⟩ := scan_literal hmode hescaped hopened hcontent'.1 hcontent'.2 s
  have hexchanged : Exchanged (p ++ kind.delimiter :: (content ++ kind.delimiter :: s))
      (p ++ kind.delimiter :: (content' ++ kind.delimiter :: s)) :=
    ⟨⟨_, kind, content, content', _, hcells, hcells'⟩, hfinal.trans hfinal'.symm⟩
  refine ⟨?_, hexchanged.firstFailure? settings⟩
  simp only [checkStructure_eq_ok, String.toList_ofList]
  exact ⟨fun h check hcheck => hexchanged.check settings hcheck (h check hcheck),
    fun h check hcheck => hexchanged.symm.check settings hcheck (h check hcheck)⟩

/-- A regex with flags may contain an unpaired parenthesis, a stage, an unknown call and quotes. -/
theorem verdict_ignores_content_regex :
    checkStructure {} "filter a ~ /x/i | limit 1" = .ok () ∧
      checkStructure {} "filter a ~ /) | bogus(\"'/i | limit 1" = .ok () := by
  have hplain : checkStructure {} "filter a ~ /x/i | limit 1" = .ok () := by decide
  have h := @verdict_ignores_content {} .regex "filter a ~ ".toList "i | limit 1".toList "x".toList
    ") | bogus(\"'".toList rfl rfl (fun _ => rfl) (by decide) (by decide)
  exact ⟨hplain, h.1.mp hplain⟩

end OpalRepair
