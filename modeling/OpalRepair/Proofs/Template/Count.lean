import Mathlib
import OpalRepair.Proofs.Bytes.Count
import OpalRepair.Proofs.Clause.Fragment
import OpalRepair.Proofs.Selection
import OpalRepair.Proofs.Template.Splice

/-!
# Conditional counts around a literal

A count stands in front of the literal, behind it, or holds it in its condition.  In each case its
position and its condition follow the content of the literal in one way.
-/

namespace OpalRepair

open Query Text Vocabulary

/-! ## Stages around a literal -/

namespace Query

section Spans

theorem Stage.spans_append (offset : Nat) (a b : List Stage) :
    Stage.spans List.length offset (a ++ b) = Stage.spans List.length offset a ++
      Stage.spans List.length (offset + (a.flatMap Stage.cells).length) b := by
  induction a generalizing offset with
  | nil => rfl
  | cons stage a ih =>
      rw [List.cons_append, Stage.spans, Stage.spans, ih]
      simp [Stage.cells, Nat.add_assoc]

theorem Stage.length_spans (offset : Nat) (stages : List Stage) :
    (Stage.spans List.length offset stages).length = stages.length := by
  induction stages generalizing offset with
  | nil => rfl
  | cons stage stages ih => simp [Stage.spans, ih]

theorem Stage.spans_add (more offset : Nat) (stages : List Stage) :
    Stage.spans List.length (offset + more) stages =
      (Stage.spans List.length offset stages).map fun span =>
        ⟨span.start + more, span.stop + more⟩ := by
  induction stages generalizing offset with
  | nil => rfl
  | cons stage stages ih =>
      have hstop (n : Nat) : offset + more + n = offset + n + more := by omega
      simp only [Stage.spans, List.map_cons, hstop]
      rw [show offset + stage.body.length + more + stage.gap.length =
        offset + stage.body.length + stage.gap.length + more by omega, ih]

theorem Stage.bounds_of_mem_spans {offset : Nat} {stages : List Stage} {span : Span}
    (h : span ∈ Stage.spans List.length offset stages) :
    offset ≤ span.start ∧ span.start ≤ span.stop ∧
      span.stop ≤ offset + (stages.flatMap Stage.cells).length := by
  induction stages generalizing offset with
  | nil => simp [Stage.spans] at h
  | cons stage stages ih =>
      have hlength : ((stage :: stages).flatMap Stage.cells).length =
          stage.body.length + stage.gap.length + (stages.flatMap Stage.cells).length := by
        rw [List.flatMap_cons, List.length_append, Stage.cells, List.length_append]
      rcases List.mem_cons.mp h with rfl | h
      · dsimp only
        omega
      · have := ih h
        omega

end Spans

end Query

namespace Template

def placeSpan (hole size : Nat) (span : Span) : Span :=
  ⟨place hole size span.start, place hole size span.stop⟩

theorem contains_placeSpan {size : Nat} (hsize : 0 < size) (hole position : Nat) (span : Span) :
    (placeSpan hole size span).contains (place hole size position) = span.contains position := by
  rw [Bool.eq_iff_iff, Bytes.contains_iff, Bytes.contains_iff, placeSpan]
  dsimp only
  rw [place_le_iff hsize, place_lt_iff hsize]

/-- The stages of a row with a literal in it: their spans move with the content and keep their
verbs. -/
theorem exists_spans (kind : Literal) (front behind : List Cell) :
    ∃ (spans : List Span) (verbs : List (Option String)), spans.length = verbs.length ∧
      (∀ span ∈ spans, span.start ≤ span.stop) ∧ ∀ content,
        (Layout.ofCells (front ++ (literalRow kind content ++ behind))).spans List.length =
          spans.map (placeSpan front.length (content.length + 2)) ∧
        (Layout.ofCells (front ++ (literalRow kind content ++ behind))).stages.map Stage.verb? =
          verbs := by
  obtain ⟨lead, before, start, body, gap, stages, hfront, hlayout⟩ :=
    Layout.exists_stage kind front behind
  have hlength : front.length =
      lead.length + (before.flatMap Stage.cells).length + start.length := by
    rw [hfront, List.length_append, List.length_append, Nat.add_assoc]
  refine ⟨Stage.spans List.length lead.length before ++
      ⟨lead.length + (before.flatMap Stage.cells).length, front.length + 1 + body.length⟩ ::
        Stage.spans List.length (front.length + 1 + (body.length + gap.length)) stages,
    before.map Stage.verb? ++ Stage.verb? ⟨start, gap⟩ :: stages.map Stage.verb?, ?_, ?_,
    fun content => ⟨?_, ?_⟩⟩
  · simp [Stage.length_spans]
  · intro span hspan
    rcases List.mem_append.mp hspan with hspan | hspan
    · exact (Stage.bounds_of_mem_spans hspan).2.1
    · rcases List.mem_cons.mp hspan with rfl | hspan
      · dsimp only
        omega
      · exact (Stage.bounds_of_mem_spans hspan).2.1
  · have hbefore : (Stage.spans List.length lead.length before).map
        (placeSpan front.length (content.length + 2)) =
          Stage.spans List.length lead.length before := by
      refine (List.map_congr_left fun span hspan => ?_).trans (List.map_id _)
      obtain ⟨-, hspanStop, hstop⟩ := Stage.bounds_of_mem_spans hspan
      rw [placeSpan, place_of_le (by omega), place_of_le (by omega)]
      rfl
    have hbehind : (Stage.spans List.length (front.length + 1 + (body.length + gap.length))
        stages).map (placeSpan front.length (content.length + 2)) =
          Stage.spans List.length
            (front.length + 1 + (body.length + gap.length) + (content.length + 1)) stages := by
      rw [Stage.spans_add (content.length + 1)]
      refine List.map_congr_left fun span hspan => ?_
      obtain ⟨hstart, hspanStop, -⟩ := Stage.bounds_of_mem_spans hspan
      have hplace {position : Nat} (h : front.length + 1 ≤ position) :
          place front.length (content.length + 2) position = position + (content.length + 1) := by
        rw [place, if_neg (by omega)]
        omega
      rw [placeSpan, hplace (by omega), hplace (by omega)]
    have hstage : ((start ++ (literalRow kind content ++ body)).length : Nat) =
        start.length + (content.length + 2 + body.length) := by
      simp [literalRow, contentRow]
      omega
    rw [hlayout, Layout.spans, Stage.spans_append, Stage.spans, List.map_append, List.map_cons,
      hbefore, hbehind]
    dsimp only [placeSpan]
    rw [place_of_le (by omega), place_behind, hstage]
    congr 2
    · congr 1
      omega
    · congr 1
      omega
  · simp [hlayout, Stage.verb?_literal]

end Template

/-! ## Parentheses around a literal -/

namespace Query

theorem level_of_literal {part : List Cell} (h : ∀ cell ∈ part, cell.isLiteral = true) :
    Level part := by
  intro inner row
  induction part with
  | nil => simp
  | cons cell part ih =>
      have hcode := not_isCode_of_isLiteral (h cell (by simp))
      rw [List.cons_append, closingParen?_other (hcode '(') (hcode ')'),
        ih fun other hother => h other (by simp [hother]), Option.map_map]
      rfl

theorem exists_closingParen? {inner : Nat} {row : List Cell} (h : closingParen? inner row = none) :
    ∃ depth, ∀ behind, closingParen? inner (row ++ behind) =
      (closingParen? depth behind).map (· + row.length) := by
  induction row generalizing inner with
  | nil => exact ⟨inner, fun behind => by simp⟩
  | cons cell row ih =>
      have hnext {inner' : Nat} (hstep : ∀ rest, closingParen? inner (cell :: rest) =
          (closingParen? inner' rest).map (· + 1)) :
          ∃ depth, ∀ behind, closingParen? inner (cell :: row ++ behind) =
            (closingParen? depth behind).map (· + (cell :: row).length) := by
        rw [hstep, Option.map_eq_none_iff] at h
        obtain ⟨depth, hdepth⟩ := ih h
        refine ⟨depth, fun behind => ?_⟩
        rw [List.cons_append, hstep, hdepth, Option.map_map]
        rfl
      cases hleft : cell.isCode '(' with
      | true => exact hnext fun rest => closingParen?_left hleft inner
      | false =>
          cases hright : cell.isCode ')' with
          | false => exact hnext fun rest => closingParen?_other hleft hright inner
          | true =>
              cases inner with
              | zero => simp [closingParen?_right_zero hright] at h
              | succ inner => exact hnext fun rest => closingParen?_right_succ hright inner

end Query

namespace FlagCount

open Template

/-! ## Heads of counts -/

theorem countHead?_stop (kind : Literal) (front back : List Char) :
    countHead? (front ++ kind.delimiter :: back) =
      (countHead? front).map fun head => (head.1, head.2 ++ kind.delimiter :: back) := by
  have hname : ∀ c ∈ (kind.delimiter :: back).head?, isNameChar c = false := by
    cases kind <;> simp <;> decide
  have hskip (c : Char) (hc : c ≠ kind.delimiter) : skipTo? c (kind.delimiter :: back) = none := by
    rw [Word.skipTo?_cons_other kind.isBlank_delimiter, if_neg hc.symm]
  have hcall (text : List Char) : callHead? (text ++ kind.delimiter :: back) =
      (callHead? text).map fun call => (call.1, call.2 ++ kind.delimiter :: back) := by
    obtain ⟨hrun, hdrop⟩ := AlignMetric.name_append hname text
    rw [callHead?, callHead?, hrun, hdrop,
      AlignMetric.skipTo?_append (hskip '(' (by cases kind <;> decide)), Option.map_map,
      Option.map_map]
    rfl
  have htrim (text : List Char) : trimStart (text ++ kind.delimiter :: back) =
      trimStart text ++ kind.delimiter :: back := by
    induction text with
    | nil => simp [trimStart, kind.isBlank_delimiter]
    | cons c text ih =>
        cases hc : isBlank c with
        | true => simpa [trimStart, hc] using ih
        | false => simp [trimStart, hc]
  obtain ⟨hrun, hdrop⟩ := AlignMetric.name_append hname front
  have hhead : (front ++ kind.delimiter :: back).head?.any isNameStart =
      front.head?.any isNameStart := by
    cases front with
    | nil => cases kind <;> rfl
    | cons c front => rfl
  rw [countHead?, countHead?, hhead, hrun, hdrop,
    AlignMetric.skipTo?_append (hskip ':' (by cases kind <;> decide))]
  split
  · rfl
  · cases skipTo? ':' (front.dropWhile isNameChar) with
    | none => rfl
    | some rest =>
        simp only [Option.map_some, Option.bind_some, htrim, hcall]
        cases callHead? (trimStart rest) with
        | none => rfl
        | some call =>
            simp only [Option.map_some, Option.bind_some]
            split <;> rfl

theorem length_of_countHead? {text label arguments : List Char}
    (h : countHead? text = some (label, arguments)) : arguments.length ≤ text.length := by
  obtain ⟨gap, blanks, spaces, -, -, -, -, htext⟩ := countHead?_eq h
  rw [htext]
  simp
  omega

/-! ## Counts -/

structure HoledCount where
  stage : Nat
  span : Span
  label : List Char
  condition : Template

namespace HoledCount

def fill (hole : Nat) (word : List Char) (count : HoledCount) : Count :=
  ⟨count.stage, placeSpan hole word.length count.span, count.label,
    Template.fill word count.condition⟩

end HoledCount

theorem closingParen?_literal_cases (kind : Literal) (inside behind : List Cell) :
    (∃ n < inside.length, ∀ content,
        closingParen? 0 (inside ++ (literalRow kind content ++ behind)) = some n) ∨
      (∃ n < behind.length, ∀ content,
        closingParen? 0 (inside ++ (literalRow kind content ++ behind)) =
          some (inside.length + (content.length + 2) + n)) ∨
      ∀ content, closingParen? 0 (inside ++ (literalRow kind content ++ behind)) = none := by
  have hlength {row : List Cell} {inner n : Nat} (h : closingParen? inner row = some n) :
      n < row.length := by
    obtain ⟨part, cell, after, rfl, rfl, -, -⟩ := closingParen?_eq h
    simp
  cases hinside : closingParen? 0 inside with
  | some n =>
      have hn := hlength hinside
      exact .inl ⟨n, hn, fun content => (closingParen?_append_iff _ hn).mpr hinside⟩
  | none =>
      right
      obtain ⟨depth, hdepth⟩ := exists_closingParen? hinside
      have hpast (content : List Char) :
          closingParen? 0 (inside ++ (literalRow kind content ++ behind)) =
            (closingParen? depth behind).map (inside.length + (content.length + 2) + ·) := by
        rw [hdepth, level_of_literal fun _ => isLiteral_literalRow, Option.map_map]
        congr 1
        funext n
        simp [literalRow, contentRow]
        omega
      cases hbehind : closingParen? depth behind with
      | some n => exact .inl ⟨n, hlength hbehind, fun content => by rw [hpast, hbehind]; rfl⟩
      | none => exact .inr fun content => by rw [hpast, hbehind]; rfl

section Sites

variable {kind : Literal} {front behind : List Cell} {numberAt : Nat → Option Nat}
  {layoutOf : List Char → Layout}

theorem countHead?_literal (kind : Literal) (row behind : List Cell) (content : List Char) :
    countHead? (text (row ++ (literalRow kind content ++ behind))) =
      (countHead? (text row)).map fun head =>
        (head.1, head.2 ++ text (literalRow kind content ++ behind)) := by
  have hrow : text (literalRow kind content ++ behind) = kind.delimiter ::
      (content ++ [kind.delimiter] ++ text behind) := by simp
  rw [text_append, hrow, countHead?_stop]

def countFrom? (stage : Nat) (label : List Char) (start opening : Nat) (row : List Cell) :
    Option Count :=
  (closingParen? 0 row).bind fun length =>
    let condition := trim (text (row.take length))
    if condition.isEmpty then none
    else some ⟨stage, ⟨start, opening + length + 1⟩, label, condition⟩

section Closing

variable {inside : List Cell} {hole start opening n : Nat} (stage : Nat) (label : List Char)
  {content : List Char}

theorem countFrom?_front (hstart : start ≤ hole) (hcut : opening + inside.length = hole)
    (hn : n < inside.length)
    (h : closingParen? 0 (inside ++ (literalRow kind content ++ behind)) = some n) :
    countFrom? stage label start opening (inside ++ (literalRow kind content ++ behind)) =
      (if (trim (text (inside.take n))).isEmpty then none
        else some ⟨stage, ⟨start, opening + n + 1⟩, label, plain (trim (text (inside.take n)))⟩ :
        Option HoledCount).map (HoledCount.fill hole (text (literalRow kind content))) := by
  rw [countFrom?, h, Option.bind_some, List.take_append_of_le_length hn.le]
  dsimp only
  split
  · rfl
  · rw [Option.map_some, HoledCount.fill, placeSpan, place_of_le hstart,
      place_of_le (by dsimp only; omega), fill_plain]

theorem countFrom?_around (hstart : start ≤ hole) (hcut : opening + inside.length = hole)
    (h : closingParen? 0 (inside ++ (literalRow kind content ++ behind)) =
      some (inside.length + (content.length + 2) + n)) :
    countFrom? stage label start opening (inside ++ (literalRow kind content ++ behind)) =
      (some ⟨stage, ⟨start, hole + 1 + (n + 1)⟩, label,
        holed (trimStart (text inside)) (trimEnd (text (behind.take n)))⟩ :
        Option HoledCount).map (HoledCount.fill hole (text (literalRow kind content))) := by
  have hliteral : (literalRow kind content).length = content.length + 2 := by
    simp [literalRow, contentRow]
  have hword : (text (literalRow kind content)).length = content.length + 2 := by simp
  have htake : (inside ++ (literalRow kind content ++ behind)).take
      (inside.length + (content.length + 2) + n) =
        inside ++ (literalRow kind content ++ behind.take n) := by
    rw [Nat.add_assoc, List.take_length_add_append, ← hliteral, List.take_length_add_append]
  have hfill : Template.fill (text (literalRow kind content))
      (holed (trimStart (text inside)) (trimEnd (text (behind.take n)))) =
        kind.between (trimStart (text inside)) (trimEnd (text (behind.take n))) content := by
    simp [fill_holed, Literal.between]
  rw [countFrom?, h, Option.bind_some, htake, Literal.text_between, Literal.trim_between]
  refine (if_neg (by simp [Literal.between])).trans ?_
  rw [Option.map_some, HoledCount.fill, placeSpan, hword, place_behind, place_of_le hstart, hfill]
  congr 3
  omega

theorem exists_countFrom? (kind : Literal) (behind : List Cell) (hstart : start ≤ hole)
    (hcut : opening + inside.length = hole) :
    ∃ count? : Option HoledCount, ∀ content,
      countFrom? stage label start opening (inside ++ (literalRow kind content ++ behind)) =
        count?.map (HoledCount.fill hole (text (literalRow kind content))) := by
  rcases closingParen?_literal_cases kind inside behind with ⟨n, hn, hclose⟩ | ⟨n, -, hclose⟩ | hclose
  · exact ⟨_, fun content => countFrom?_front stage label hstart hcut hn (hclose content)⟩
  · exact ⟨_, fun content => countFrom?_around stage label hstart hcut (hclose content)⟩
  · exact ⟨none, fun content => by rw [countFrom?, hclose]; rfl⟩

end Closing

/-- A count that starts in front of the literal ends there as well, or it holds the literal in its
condition. -/
theorem exists_countAt?_front
    (hnumber : ∀ content position, aggregation? (layoutOf content)
      (place front.length (content.length + 2) position) = numberAt position)
    {index : Nat} (previous : Option Char) {first : Cell} {rest : List Cell}
    (hlength : index + (first :: rest).length = front.length) :
    ∃ count? : Option HoledCount, ∀ content, countAt? (layoutOf content)
        ⟨index, previous, first :: rest ++ (literalRow kind content ++ behind)⟩ =
      count?.map (HoledCount.fill front.length (text (literalRow kind content))) := by
  have hindex (content : List Char) : aggregation? (layoutOf content) index = numberAt index := by
    rw [← hnumber content, place_of_le (by omega)]
  have hhead (content : List Char) := countHead?_literal kind (first :: rest) behind content
  let site : Site := ⟨index, previous, first :: rest⟩
  by_cases hplace : (site.inLiteral || !site.startsWord || site.continuesPath) = true
  · exact ⟨none, fun content => if_pos hplace⟩
  have hsite (content : List Char) : countAt? (layoutOf content)
      ⟨index, previous, first :: rest ++ (literalRow kind content ++ behind)⟩ = _ := if_neg hplace
  cases hfound : countHead? (text (first :: rest)) with
  | none => exact ⟨none, fun content => by rw [hsite, hhead, hfound]; rfl⟩
  | some found =>
  cases hstage : numberAt index with
  | none => exact ⟨none, fun content => by rw [hsite, hhead, hfound, hindex, hstage]; rfl⟩
  | some stage =>
  obtain ⟨label, arguments⟩ := found
  -- What follows the parenthesis of the count starts in front of the literal.
  obtain ⟨size, hsize⟩ : ∃ size, size + arguments.length = (first :: rest).length := by
    have hle := length_of_countHead? hfound
    exact ⟨(first :: rest).length - arguments.length, by simp [text] at hle ⊢; omega⟩
  have hdrop (content : List Char) :
      (first :: rest ++ (literalRow kind content ++ behind)).length -
        (arguments ++ text (literalRow kind content ++ behind)).length = size := by
    simp [text] at hsize ⊢
    omega
  have hinside (content : List Char) :
      (first :: rest ++ (literalRow kind content ++ behind)).drop size =
        (first :: rest).drop size ++ (literalRow kind content ++ behind) :=
    List.drop_append_of_le_length (by omega)
  have hcount (content : List Char) : countAt? (layoutOf content)
      ⟨index, previous, first :: rest ++ (literalRow kind content ++ behind)⟩ =
        countFrom? stage label index (index + size)
          ((first :: rest).drop size ++ (literalRow kind content ++ behind)) := by
    rw [hsite, hhead, hfound, hindex, hstage]
    simp only [Option.map_some, Option.bind_some, hdrop, hinside, countFrom?]
  have hcut : index + size + ((first :: rest).drop size).length = front.length := by
    rw [List.length_drop]
    omega
  simp only [hcount]
  exact exists_countFrom? stage label kind behind (by omega) hcut

theorem exists_countAt?_behind
    (hnumber : ∀ content position, aggregation? (layoutOf content)
      (place front.length (content.length + 2) position) = numberAt position)
    (more : Nat) (previous : Option Char) (rest : List Cell) :
    ∃ count? : Option HoledCount, ∀ content, countAt? (layoutOf content)
        ⟨front.length + (content.length + 2) + more, previous, rest⟩ =
      count?.map (HoledCount.fill front.length (text (literalRow kind content))) := by
  have hindex (content : List Char) : aggregation? (layoutOf content)
      (front.length + (content.length + 2) + more) = numberAt (front.length + 1 + more) := by
    rw [← hnumber content, place_behind]
  have hspan (content : List Char) (length : Nat) :
      placeSpan front.length (text (literalRow kind content)).length
          ⟨front.length + 1 + more, front.length + 1 + (more + length)⟩ =
        ⟨front.length + (content.length + 2) + more,
          front.length + (content.length + 2) + more + length⟩ := by
    rw [placeSpan, place_behind, place_behind]
    simp
    omega
  have hnone (h : ∀ content, countAt? (layoutOf content)
      ⟨front.length + (content.length + 2) + more, previous, rest⟩ = none) :
      ∃ count? : Option HoledCount, ∀ content, countAt? (layoutOf content)
          ⟨front.length + (content.length + 2) + more, previous, rest⟩ =
        count?.map (HoledCount.fill front.length (text (literalRow kind content))) :=
    ⟨none, h⟩
  let site : Site := ⟨0, previous, rest⟩
  by_cases hplace : (site.inLiteral || !site.startsWord || site.continuesPath) = true
  · exact hnone fun content => if_pos hplace
  have hsite (content : List Char) : countAt? (layoutOf content)
      ⟨front.length + (content.length + 2) + more, previous, rest⟩ = _ := if_neg hplace
  cases hfound : countHead? (text rest) with
  | none => exact hnone fun content => by rw [hsite, hfound]; rfl
  | some found =>
  cases hstage : numberAt (front.length + 1 + more) with
  | none => exact hnone fun content => by rw [hsite, hfound, hindex, hstage]; rfl
  | some stage =>
  obtain ⟨label, arguments⟩ := found
  generalize hinside : rest.drop (rest.length - arguments.length) = inside
  have hcount (content : List Char) : countAt? (layoutOf content)
      ⟨front.length + (content.length + 2) + more, previous, rest⟩ =
        (closingParen? 0 inside).bind fun length =>
          if (trim (text (inside.take length))).isEmpty then none
          else some ⟨stage, ⟨front.length + (content.length + 2) + more,
            front.length + (content.length + 2) + more + (rest.length - arguments.length) + length + 1⟩,
            label, trim (text (inside.take length))⟩ := by
    rw [hsite, hfound, hindex, hstage]
    simp only [Option.bind_some, hinside]
  cases hclose : closingParen? 0 inside with
  | none => exact hnone fun content => by rw [hcount, hclose]; rfl
  | some n =>
  by_cases hempty : (trim (text (inside.take n))).isEmpty = true
  · refine hnone fun content => ?_
    rw [hcount, hclose, Option.bind_some, if_pos hempty]
  · refine ⟨some ⟨stage, ⟨front.length + 1 + more,
      front.length + 1 + (more + (rest.length - arguments.length + n + 1))⟩, label,
      plain (trim (text (inside.take n)))⟩, fun content => ?_⟩
    rw [hcount, hclose, Option.bind_some, if_neg hempty, Option.map_some, HoledCount.fill, hspan,
      fill_plain]
    simp only [Nat.add_assoc]

theorem filterMap_literal (layout : Layout) {row : List Cell}
    (hrow : ∀ cell ∈ row, cell.isLiteral = true) (index : Nat) (previous : Option Char)
    (behind : List Cell) :
    (sitesFrom index previous (row ++ behind)).filterMap (countAt? layout) =
      (sitesFrom (index + row.length) ((text row).getLast?.or previous) behind).filterMap
        (countAt? layout) := by
  refine filterMap_sitesFrom (fun n hn index previous => ?_) index previous
  have hliteral : Site.inLiteral ⟨index, previous, row.drop n ++ behind⟩ = true := by
    simp [Site.inLiteral, hn, hrow row[n] (List.getElem_mem hn)]
  simp [countAt?, hliteral]

theorem exists_filterMap_cons {site : List Char → Site}
    {sites : List Char → List Site} {fill : List Char → HoledCount → Count}
    (hsite : ∃ count? : Option HoledCount, ∀ content,
      countAt? (layoutOf content) (site content) = count?.map (fill content))
    (hsites : ∃ counts : List HoledCount, ∀ content,
      (sites content).filterMap (countAt? (layoutOf content)) = counts.map (fill content)) :
    ∃ counts : List HoledCount, ∀ content,
      (site content :: sites content).filterMap (countAt? (layoutOf content)) =
        counts.map (fill content) := by
  obtain ⟨count?, hcount⟩ := hsite
  obtain ⟨counts, hcounts⟩ := hsites
  refine ⟨count?.toList ++ counts, fun content => ?_⟩
  rw [List.filterMap_cons, hcount, hcounts]
  cases count? <;> rfl

theorem exists_counts_behind
    (hnumber : ∀ content position, aggregation? (layoutOf content)
      (place front.length (content.length + 2) position) = numberAt position)
    (more : Nat) (previous : Option Char) (rest : List Cell) :
    ∃ counts : List HoledCount, ∀ content,
      (sitesFrom (front.length + (content.length + 2) + more) previous rest).filterMap
          (countAt? (layoutOf content)) =
        counts.map (HoledCount.fill front.length (text (literalRow kind content))) := by
  induction rest generalizing more previous with
  | nil => exact ⟨[], fun _ => rfl⟩
  | cons cell rest ih =>
      exact exists_filterMap_cons (exists_countAt?_behind hnumber more previous (cell :: rest))
        (ih (more + 1) (some cell.char))

theorem exists_counts
    (hnumber : ∀ content position, aggregation? (layoutOf content)
      (place front.length (content.length + 2) position) = numberAt position)
    (kind : Literal) (behind : List Cell) :
    ∃ counts : List HoledCount, ∀ content,
      FlagCount.counts (front ++ (literalRow kind content ++ behind)) (layoutOf content) =
        counts.map (HoledCount.fill front.length (text (literalRow kind content))) := by
  -- The induction is on what is left of the row in front of the literal.
  suffices h : ∀ (rest : List Cell) (index : Nat) (previous : Option Char),
      index + rest.length = front.length → ∃ counts : List HoledCount, ∀ content,
        (sitesFrom index previous (rest ++ (literalRow kind content ++ behind))).filterMap
            (countAt? (layoutOf content)) =
          counts.map (HoledCount.fill front.length (text (literalRow kind content))) from
    h front 0 none (Nat.zero_add _)
  intro rest
  induction rest with
  | nil =>
      intro index previous hindex
      obtain ⟨counts, hcounts⟩ := @exists_counts_behind kind front numberAt layoutOf hnumber 0
        (some kind.delimiter) behind
      refine ⟨counts, fun content => ?_⟩
      have hlast : (text (literalRow kind content)).getLast?.or previous = some kind.delimiter := by
        simp [List.getLast?_cons]
      have hlength : index + (literalRow kind content).length = front.length + (content.length + 2) + 0 := by
        simp [literalRow, contentRow] at hindex ⊢
        omega
      rw [List.nil_append, filterMap_literal _ fun _ => isLiteral_literalRow, hlast, hlength, hcounts]
  | cons first rest ih =>
      intro index previous hindex
      exact exists_filterMap_cons (exists_countAt?_front hnumber previous hindex)
        (ih (index + 1) (some first.char) (by simp at hindex; omega))

end Sites

end FlagCount

end OpalRepair
