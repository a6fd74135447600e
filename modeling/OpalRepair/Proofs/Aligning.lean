import Mathlib
import OpalRepair.Proofs.Account
import OpalRepair.Proofs.Bytes.Metric
import OpalRepair.Proofs.Clause.Stage
import OpalRepair.Proofs.Rescan

/-!
# One stage more

A query that selects one metric gets one stage more, which aligns the metric.  The stage behind it
uses the aligned column, all other stages stay as they are, and there is nothing left to align.
-/

namespace OpalRepair

open Query Text Vocabulary

namespace AlignMetric

/-! ## Columns -/

theorem isNameChar_of_isAlphanum {c : Char} (h : c.isAlphanum = true) : isNameChar c = true := by
  simp [isNameChar, h]

theorem column_name (metric : List Char) :
    (∀ c ∈ column metric, isNameChar c = true) ∧
      ∃ c ∈ (column metric).head?, c.isDigit = false := by
  have hmapped : ∀ c ∈ metric.map fun c => if c.isAlphanum then c else '_', isNameChar c = true := by
    intro c hc
    obtain ⟨d, -, rfl⟩ := List.mem_map.mp hc
    split
    · exact isNameChar_of_isAlphanum ‹_›
    · decide
  have hname : ∀ c ∈ dropTrailing (· == '_') ((metric.map fun c =>
      if c.isAlphanum then c else '_').dropWhile (· == '_')), isNameChar c = true := by
    intro c hc
    obtain ⟨back, -, hback⟩ := exists_trailing (· == '_') ((metric.map fun c =>
      if c.isAlphanum then c else '_').dropWhile (· == '_'))
    have hmem : c ∈ (metric.map fun c => if c.isAlphanum then c else '_').dropWhile (· == '_') := by
      rw [hback]
      exact List.mem_append_left _ hc
    exact hmapped c ((List.dropWhile_sublist _).subset hmem)
  rw [column]
  split
  · refine ⟨fun c hc => ?_, 'm', by simp, by decide⟩
    rcases List.mem_append.mp hc with hc | hc
    · exact (by simp; decide : ∀ c ∈ "metric_".toList, isNameChar c = true) c hc
    · exact hname c hc
  · rename_i hdigit
    refine ⟨hname, ?_⟩
    cases hcolumn : (dropTrailing (· == '_') ((metric.map fun c =>
        if c.isAlphanum then c else '_').dropWhile (· == '_'))) with
    | nil => simp [hcolumn] at hdigit
    | cons c name => exact ⟨c, by simp, by simpa [hcolumn] using hdigit⟩

end AlignMetric

/-! ## Patches of stages -/

namespace Patch

theorem changes_pieces (mend? : Stage → Option (List Char)) (stages : List Stage) :
    changes (stages.flatMap (Stage.pieces mend?)) = stages.filterMap fun stage =>
      (mend? stage).map fun replacement => ⟨String.ofList stage.text, String.ofList replacement⟩ := by
  induction stages with
  | nil => rfl
  | cons stage stages ih =>
      rw [List.flatMap_cons, changes_append, ih, List.filterMap_cons]
      unfold Stage.pieces
      cases mend? stage <;> rfl

theorem after_pieces_of_none {mend? : Stage → Option (List Char)} {stages : List Stage}
    (h : ∀ stage ∈ stages, mend? stage = none) :
    after (stages.flatMap (Stage.pieces mend?)) = text (stages.flatMap Stage.cells) := by
  induction stages with
  | nil => rfl
  | cons stage stages ih =>
      rw [List.flatMap_cons, after_append, Clause.after_pieces, h stage (by simp),
        ih fun other hother => h other (by simp [hother])]
      simp [Stage.cells, Stage.text]

end Patch

namespace AlignMetric

/-! ## The stage with the metric call -/

section Mended

variable {query : List Char}

theorem mendStage?_of_no_selection {stage : Stage} (h : selections stage = []) :
    mendStage? stage = none := by
  rw [mendStage?, h]
  rfl

theorem exists_mended (h : (patch query).changes ≠ []) :
    ∃ pre stage post selection replacement,
      (layout query).stages = pre ++ stage :: post ∧ selections stage = [selection] ∧
      mendStage? stage = some replacement ∧
      (∀ other ∈ pre ++ post, selections other = []) ∧
      (patch query).after = text ((layout query).lead ++ pre.flatMap Stage.cells) ++ replacement ++
        text (stage.gap ++ post.flatMap Stage.cells) := by
  simp only [patch] at h ⊢
  split at h
  · simp at h
  rename_i hone
  rw [if_neg hone]
  simp only [Bool.or_eq_true, bne_iff_ne, not_or, not_not] at hone
  rw [Patch.ofStages, Patch.changes_keep, Patch.changes_pieces, ne_eq, List.filterMap_eq_nil_iff] at h
  push Not at h
  obtain ⟨stage, hstage, hchange⟩ := h
  obtain ⟨replacement, hmend⟩ : ∃ replacement, mendStage? stage = some replacement := by
    refine Option.ne_none_iff_exists'.mp fun hnone => ?_
    simp [hnone] at hchange
  obtain ⟨pre, post, hstages⟩ := List.append_of_mem hstage
  have hlength := hone.2
  rw [hstages] at hlength
  simp only [List.flatMap_append, List.flatMap_cons, List.length_append] at hlength
  have hpos : 0 < (selections stage).length := by
    refine List.length_pos_of_ne_nil fun hnil => ?_
    simp [mendStage?_of_no_selection hnil] at hmend
  have hothers : ∀ other ∈ pre ++ post, selections other = [] := by
    have hnil : (pre ++ post).flatMap selections = [] := by
      rw [← List.length_eq_zero_iff, List.flatMap_append, List.length_append]
      omega
    exact List.flatMap_eq_nil_iff.mp hnil
  obtain ⟨only, honly⟩ := List.length_eq_one_iff.mp (show (selections stage).length = 1 by omega)
  refine ⟨pre, stage, post, only, replacement, hstages, honly, hmend, hothers, ?_⟩
  have hnone (other : Stage) (hother : other ∈ pre ++ post) : mendStage? other = none :=
    mendStage?_of_no_selection (hothers other hother)
  rw [Patch.ofStages, hstages, List.flatMap_append, List.flatMap_cons, Patch.after_cons,
    Patch.after_append, Patch.after_append, Clause.after_pieces, hmend,
    Patch.after_pieces_of_none fun other hother => hnone other (by simp [hother]),
    Patch.after_pieces_of_none fun other hother => hnone other (by simp [hother])]
  simp

end Mended

/-! ## The mended stage as cells -/

section Rows

variable {query : List Char} {selector : String} {before after front head inside back : List Cell}
  {stage : Stage} {paren close : Cell}

theorem alignStage_eq (function : List Char) (call : Call) :
    alignStage function call = "align ".toList ++ call.column ++ [':'] ++ function ++ ['('] ++
      call.call ++ ") | ".toList := rfl

def alignRow (function field : List Char) (call : List Cell) : List Cell :=
  codeRow ("align ".toList ++ field ++ [':'] ++ function ++ ['(']) ++ call ++ codeRow [')']

theorem settles_alignRow {function field : List Char} {call : List Cell}
    (hfunction : ∀ c ∈ function, isNameChar c = true) (hfield : ∀ c ∈ field, isNameChar c = true)
    {last : Option Char} (hcall : Scanner.Settles (text call) call last) :
    Scanner.Settles ("align ".toList ++ field ++ [':'] ++ function ++ ['('] ++ text call ++
      ") | ".toList) (alignRow function field call ++ gapRow) (some '|') := by
  have hopen : ∀ c ∈ "lign ".toList ++ field ++ [':'] ++ function ++ ['('], Plain c ∧ c ≠ '|' := by
    intro c hc
    simp only [List.mem_append, List.mem_singleton] at hc
    rcases hc with (((hc | hc) | rfl) | hc) | rfl
    · exact (by simp; decide : ∀ c ∈ "lign ".toList, Plain c ∧ c ≠ '|') c hc
    · exact plain_of_name hfield c hc
    · decide
    · exact plain_of_name hfunction c hc
    · decide
  have hclose : Scanner.Settles [')'] (codeRow [')']) (some ')') :=
    Scanner.settles_code (by decide) (by simp)
  have hall := ((Scanner.settles_code (show Solid 'a' by decide) hopen).append hcall).append
    (hclose.consumes (Scanner.consumes_gapRow _))
  simpa [alignRow] using hall

end Rows

end AlignMetric

namespace Bytes.CallAt

variable {query : List Char} {selector : String} {before after front head inside back : List Cell}
  {stage : Stage} {paren close : Cell}

theorem isLiteral_close
    (h : CallAt query selector before stage after front head inside back paren close) :
    close.char = ')' ∧ close.isLiteral = false := by
  simpa [Cell.isCode] using h.close_code

theorem exists_head (h : CallAt query selector before stage after front head inside back paren close) :
    ∃ first more, head = first :: more ∧ first.isLiteral = false ∧ isNameChar first.char = true := by
  obtain ⟨first, hfirst, hliteral⟩ := h.head_code
  obtain ⟨more, rfl⟩ := List.head?_eq_some_iff.mp hfirst
  refine ⟨first, more, rfl, hliteral, ?_⟩
  obtain ⟨blanks, -, htext⟩ := h.head_text
  have hselects := h.selects
  rw [← String.ofList_toList (s := selector)] at hselects
  obtain ⟨hne, hname⟩ := AlignMetric.isNameChar_of_metricSelector hselects
  obtain ⟨c, name, hselector⟩ := List.exists_cons_of_ne_nil hne
  rw [hselector, text_cons, List.cons_append, List.cons.injEq] at htext
  rw [htext.1]
  exact hname c (by simp [hselector])

theorem settles_call
    (h : CallAt query selector before stage after front head inside back paren close) :
    Scanner.Settles (text (head ++ paren :: inside ++ [close])) (head ++ paren :: inside ++ [close])
      (some ')') := by
  obtain ⟨first, more, rfl, hliteral, hname⟩ := h.exists_head
  obtain ⟨hclose, hcloseLiteral⟩ := h.isLiteral_close
  have hpaints := paints_cells query
  rw [h.cells_eq, show before ++ front ++ first :: more ++ paren :: inside ++ close :: back ++
      (stage.gap ++ after) = (before ++ front) ++ (first :: ((more ++ paren :: inside) ++ [close]) ++
        (back ++ (stage.gap ++ after))) by simp] at hpaints
  have := hpaints.settles hliteral (solid_of_isNameChar hname) hcloseLiteral
    (by rw [hclose]; decide) (by rw [hclose]; decide)
  simpa [hclose] using this

theorem paints_back
    (h : CallAt query selector before stage after front head inside back paren close) :
    (Scanner.atCode (some ')')).Paints (back ++ (stage.gap ++ after)) := by
  obtain ⟨hclose, hcloseLiteral⟩ := h.isLiteral_close
  have hpaints := paints_cells query
  rw [h.cells_eq, show before ++ front ++ head ++ paren :: inside ++ close :: back ++
      (stage.gap ++ after) = (before ++ front ++ head ++ paren :: inside) ++ close ::
        (back ++ (stage.gap ++ after)) by simp] at hpaints
  simpa [hclose] using (hpaints.after_first hcloseLiteral (by rw [hclose]; decide)).2

theorem exists_front (h : CallAt query selector before stage after front head inside back paren close)
    (hplace : (before, stage) ∈ places query) {verb : String} (hverb : stage.verb? = some verb)
    (hselector : metricSelectors.contains verb = false) :
    ∃ first rest, front = first :: rest ∧ isNameChar first.char = true ∧
      first.isLiteral = false := by
  obtain ⟨first, rest, hbody, hname, hliteral⟩ := exists_first_of_verb? hplace hverb
  cases front with
  | nil =>
      obtain ⟨blanks, hblanks, hhead⟩ := h.head_text
      obtain ⟨hrun, -⟩ := h.standing.trimmed.text_of_verb? hverb
      have htext : stage.text = selector.toList ++ (blanks ++ '(' :: text (inside ++ close :: back)) := by
        rw [Stage.text, h.body, List.nil_append, text_append, hhead, text_cons,
          char_of_isCode h.paren_code, List.append_assoc]
      rw [htext, AlignMetric.takeWhile_called h.isNameChar_selector hblanks] at hrun
      have hselects := h.selects
      rw [String.toList_inj.mp hrun, hselector] at hselects
      simp at hselects
  | cons cell front =>
      have hfirst : cell = first := by
        have := h.body.symm.trans hbody
        simpa using (List.cons.inj this).1
      exact ⟨cell, front, rfl, hfirst ▸ hname, hfirst ▸ hliteral⟩

section Mended

variable {field : List Char}

theorem paints_filter
    (h : CallAt query "m" before stage after front head inside back paren close)
    {first : Cell} {rest : List Cell} (hfront : front = first :: rest)
    (hfirst : first.isLiteral = false) (hfirstName : isNameChar first.char = true)
    (hlast : ∀ c ∈ (text front).getLast?, isNameChar c = false) (hne : field ≠ [])
    (hfield : ∀ c ∈ field, isNameChar c = true) :
    (Scanner.atCode (some '|')).Paints (front ++ codeRow field ++ back ++ (stage.gap ++ after)) := by
  obtain ⟨name, more, rfl, hname, -⟩ := h.exists_head
  have hcells := paints_cells query
  rw [h.cells_eq, hfront, show before ++ first :: rest ++ name :: more ++ paren :: inside ++
      close :: back ++ (stage.gap ++ after) = before ++ first :: (rest ++ name :: (more ++
        paren :: inside ++ close :: back ++ (stage.gap ++ after))) by simp] at hcells
  obtain ⟨hrole, hrest⟩ := hcells.after_first hfirst (solid_of_isNameChar hfirstName)
  obtain ⟨blanks, hblanks, hhead⟩ := h.head_text
  -- The call is in code, so what precedes it is no regex: `m` would be its flag.
  have hfirm : ∀ cell ∈ rest.getLast?, isNameChar cell.char = false ∧
      ¬ (cell.char = '/' ∧ cell.role = .closing) := by
    intro cell hcell
    obtain ⟨start, rfl⟩ := List.getLast?_eq_some_iff.mp hcell
    have hend : (text front).getLast? = some cell.char := by
      rw [hfront, ← List.cons_append, text_append]
      exact List.getLast?_concat
    refine ⟨hlast cell.char hend, fun hslash => ?_⟩
    rw [List.append_assoc, List.singleton_append] at hrest
    refine hrest.not_closing hslash.1 (by simpa using hname) ?_ hslash.2
    have htext : text (name :: (more ++ paren :: inside ++ close :: back ++ (stage.gap ++ after))) =
        "m".toList ++ (blanks ++ '(' :: text (inside ++ close :: back ++ (stage.gap ++ after))) := by
      rw [show name :: (more ++ paren :: inside ++ close :: back ++ (stage.gap ++ after)) =
        (name :: more) ++ paren :: (inside ++ close :: back ++ (stage.gap ++ after)) by simp,
        text_append, hhead, text_cons, char_of_isCode h.paren_code, List.append_assoc]
    have hrun := AlignMetric.takeWhile_called h.isNameChar_selector hblanks
      (text (inside ++ close :: back ++ (stage.gap ++ after)))
    rw [htext, regexFlagCount, hrun]
    decide
  obtain ⟨last, hlastRegex, hsettles⟩ := Scanner.settles_name hne hfield
  have halike : (Scanner.atCode (some ')')).Alike (Scanner.atCode last) :=
    ⟨rfl, rfl, by simp only [Scanner.atCode, hlastRegex]; decide⟩
  have hback : (Scanner.atCode last).paint (text (back ++ (stage.gap ++ after))) =
      back ++ (stage.gap ++ after) := by
    rw [← halike.paint]
    exact h.paints_back
  have htext : text (front ++ codeRow field ++ back ++ (stage.gap ++ after)) =
      first.char :: (text rest ++ (field ++ text (back ++ (stage.gap ++ after)))) := by
    simp [hfront]
  rw [Scanner.Paints, htext, Scanner.paint,
    Scanner.step_solid rfl (solid_of_isNameChar hfirstName),
    hrest.kept_firm (Scanner.Alike.refl _) hfirm, hsettles _ (hrest.mode hname), hback, ← hrole,
    hfront]
  simp

theorem isLiteral_of_name {name behind : List Cell} {first : Cell}
    (hcells : cells query = before ++ first :: (name ++ behind)) (hfirst : first.isLiteral = false)
    (hname : ∀ cell ∈ name, isNameChar cell.char = true) :
    ∀ cell ∈ first :: name, cell.isLiteral = false := by
  intro cell hcell
  rcases List.mem_cons.mp hcell with rfl | hcell
  · exact hfirst
  · refine Scanner.paint_behind_code hcells hfirst (fun other hother => ?_) cell hcell
    obtain ⟨hdouble, hsingle, hslash, -⟩ := (solid_of_isNameChar (hname other hother)).1
    exact ⟨hdouble, hsingle, hslash⟩

theorem paints_behind_name {name behind : List Cell} {first : Cell}
    (hcells : cells query = before ++ first :: (name ++ behind)) (hfirst : first.isLiteral = false)
    (hname : ∀ cell ∈ first :: name, isNameChar cell.char = true) :
    ∃ last, opensRegex last = false ∧ (Scanner.atCode last).Paints behind := by
  obtain ⟨start, cell, hstart⟩ := (first :: name).eq_nil_or_concat'.resolve_left (by simp)
  have hcell : cell ∈ first :: name := by rw [hstart]; simp
  have hcode := isLiteral_of_name hcells hfirst
    (fun cell hcell => hname cell (List.mem_cons_of_mem _ hcell)) cell hcell
  have hpaints := paints_cells query
  rw [hcells, ← List.cons_append, hstart, show before ++ (start ++ [cell] ++ behind) =
    (before ++ start) ++ cell :: behind by simp] at hpaints
  have hregex : opensRegex (([] : List Char).foldl significant (some cell.char)) = false :=
    Scanner.opensRegex_of_name (hname cell hcell) (by simp)
  exact ⟨some cell.char, hregex, (hpaints.after_first hcode (solid_of_isNameChar (hname cell hcell))).2⟩

theorem takeWhile_blanks_paren {gap : List Cell} {outer : Cell}
    (hgap : ∀ cell ∈ gap, isBlank cell.char = true) (houter : outer.char = '(') (rest : List Cell) :
    (text (gap ++ outer :: rest)).takeWhile isNameChar = [] := by
  cases gap with
  | nil => rw [List.nil_append, text_cons, houter, List.takeWhile_cons_of_neg (by decide)]
  | cons cell gap =>
      have hcell := isNameChar_of_isBlank (hgap cell (by simp))
      rw [List.cons_append, text_cons, List.takeWhile_cons_of_neg (by simp [hcell])]

theorem settles_parens (hfield : ∀ c ∈ field, isNameChar c = true) :
    Scanner.Settles ('(' :: field ++ [')']) (codeRow ('(' :: field ++ [')'])) (some ')') := by
  have hplain : ∀ c ∈ field ++ [')'], Plain c ∧ c ≠ '|' := by
    intro c hc
    rcases List.mem_append.mp hc with hc | hc
    · exact plain_of_name hfield c hc
    · rw [List.mem_singleton.mp hc]
      decide
  have hsettles := Scanner.settles_code (show Solid '(' by decide) hplain
  rw [List.foldl_append] at hsettles
  exact hsettles

theorem paints_tail {spaces tail : List Cell} {last : Cell}
    (h : CallAt query selector before stage after front head inside (spaces ++ last :: tail) paren
      close) (hlast : last.isCode ')' = true) :
    (Scanner.atCode (some ')')).Paints (tail ++ (stage.gap ++ after)) := by
  obtain ⟨hchar, hliteral⟩ : last.char = ')' ∧ last.isLiteral = false := by
    simpa [Cell.isCode] using hlast
  have hback := h.paints_back
  rw [List.append_assoc, List.cons_append] at hback
  simpa [hchar] using (hback.after_first hliteral (by rw [hchar]; decide)).2

theorem paints_aggregate
    (h : CallAt query selector before stage after front head inside back paren close)
    {first outer last : Cell} {verb kept gap blanks spaces tail : List Cell} {newVerb : List Char}
    (hfront : front = first :: verb ++ (kept ++ (gap ++ outer :: blanks)))
    (hback : back = spaces ++ last :: tail) (hfirst : first.isLiteral = false)
    (hverb : ∀ cell ∈ first :: verb, isNameChar cell.char = true)
    (hgap : ∀ cell ∈ gap, isBlank cell.char = true) (houter : outer.char = '(')
    (hblanks : ∀ cell ∈ blanks, isBlank cell.char = true) (hlast : last.isCode ')' = true)
    (hnewVerb : newVerb ≠ [] ∧ ∀ c ∈ newVerb, isNameChar c = true)
    (hfield : ∀ c ∈ field, isNameChar c = true) :
    (Scanner.atCode (some '|')).Paints (codeRow newVerb ++ kept ++ codeRow ('(' :: field ++ [')']) ++
      tail ++ (stage.gap ++ after)) := by
  obtain ⟨name, more, rfl, hname, -⟩ := h.exists_head
  subst hback
  have hcells : cells query = before ++ first :: (verb ++ (kept ++ (gap ++ outer :: (blanks ++
      name :: (more ++ paren :: inside ++ close :: (spaces ++ last :: tail) ++
        (stage.gap ++ after)))))) := by
    rw [h.cells_eq, hfront]
    simp
  have houterLiteral : outer.isLiteral = false := by
    rw [show before ++ first :: (verb ++ (kept ++ (gap ++ outer :: (blanks ++ name :: (more ++
        paren :: inside ++ close :: (spaces ++ last :: tail) ++ (stage.gap ++ after)))))) =
      (before ++ first :: verb ++ kept ++ gap) ++ outer :: (blanks ++ name :: (more ++
        paren :: inside ++ close :: (spaces ++ last :: tail) ++ (stage.gap ++ after))) by simp]
      at hcells
    exact isLiteral_of_blanks_behind hcells houter hblanks hname
  obtain ⟨lastVerb, hregex, hkept⟩ := paints_behind_name hcells hfirst hverb
  obtain ⟨lastNew, hregexNew, hnew⟩ := Scanner.settles_name hnewVerb.1 hnewVerb.2
  have halike : (Scanner.atCode lastVerb).Alike (Scanner.atCode lastNew) :=
    ⟨rfl, rfl, hregex.trans hregexNew.symm⟩
  have hmode := (Scanner.paints_append.mp hkept).2.mode_of_blanks
    (Scanner.FlagsAhead.reach fun more hmore => by simp [Scanner.atCode] at hmore) hgap houterLiteral
    (by rw [houter]; decide)
  -- No flag of a regex that ends the kept part can follow it, neither before nor after.
  have hparen : ('(' :: field ++ [')'] ++ text (tail ++ (stage.gap ++ after))).takeWhile
      isNameChar = [] := by
    rw [List.cons_append, List.cons_append, List.takeWhile_cons_of_neg (by decide)]
  have hrun (rest : List Cell) := (takeWhile_blanks_paren hgap houter rest).trans hparen.symm
  have htail : (Scanner.atCode (some ')')).paint (text (tail ++ (stage.gap ++ after))) = _ :=
    h.paints_tail hlast
  have htext : text (codeRow newVerb ++ kept ++ codeRow ('(' :: field ++ [')']) ++ tail ++
      (stage.gap ++ after)) =
      newVerb ++ (text kept ++ ('(' :: field ++ [')'] ++ text (tail ++ (stage.gap ++ after)))) := by
    simp
  rw [Scanner.Paints, htext, hnew _ rfl, hkept.kept halike (hrun _), settles_parens hfield _ hmode, htail]
  simp

end Mended

end Bytes.CallAt

namespace AlignMetric

/-! ## Reading a replacement back -/

section Replacement

variable {stage : Stage} {selection : Selection} {call : Call} {verb : String}
  {replacement : List Char}

theorem mendStage?_eq_some (hone : selections stage = [selection])
    (h : mendStage? stage = some replacement) :
    ∃ call verb, callOf? stage selection = some call ∧ stage.verb? = some verb ∧
      (verb = "filter" ∧ alignFilter? selection call = some replacement ∨
        aggregationVerbs.contains verb = true ∧ alignAggregate? verb call = some replacement) := by
  rw [mendStage?, hone, List.head?_cons, Option.bind_some, Option.bind_eq_some_iff] at h
  obtain ⟨call, hcall, h⟩ := h
  obtain ⟨verb, hverb, h⟩ := Option.bind_eq_some_iff.mp h
  refine ⟨call, verb, hcall, hverb, ?_⟩
  split at h
  · exact .inl ⟨‹_›, h⟩
  · split at h
    · exact .inr ⟨‹_›, h⟩
    · simp at h

theorem alignFilter?_eq_some (h : alignFilter? selection call = some replacement) :
    selection.selector = "m" ∧
      replacement = alignStage "avg".toList call ++ text call.before ++ call.column ++ call.after := by
  rw [alignFilter?] at h
  split at h
  · rename_i hfilter
    exact ⟨hfilter.1, (Option.some.inj h).symm⟩
  · simp at h

theorem alignAggregate?_eq_some (h : alignAggregate? verb call = some replacement) :
    ∃ front name rest, enclosingCall? (text call.before) = some (front, name) ∧
      functions.contains (String.ofList name) = true ∧ trimStart call.after = ')' :: rest ∧
      replacement = alignStage name call ++ (if verb = "statsby" then "aggregate" else verb).toList ++
        front.drop verb.length ++ name ++ ['('] ++ call.column ++ [')'] ++ rest := by
  rw [alignAggregate?] at h
  split at h
  · rename_i front name rest hcalled hclosed
    dsimp only at h
    split at h
    · rename_i hfunction
      rw [Bool.and_eq_true] at hfunction
      exact ⟨front, name, rest, hcalled, hfunction.1, hclosed, (Option.some.inj h).symm⟩
    · simp at h
  · simp at h

theorem enclosingCall?_eq_some {part front name : List Char}
    (h : enclosingCall? part = some (front, name)) :
    ∃ gap blanks, part = front ++ name ++ gap ++ '(' :: blanks ∧ (∀ c ∈ gap, isBlank c = true) ∧
      (∀ c ∈ blanks, isBlank c = true) ∧ name ≠ [] ∧ (∀ c ∈ name, isNameChar c = true) ∧
      ∀ c ∈ front.getLast?, isNameChar c = false := by
  rcases Bytes.enclosingCall?_eq (List.append_nil part).symm with
    ⟨hnone, -⟩ | ⟨front', name', gap, blanks, hsome, hpart, hgap, hblanks, hne, hname, hlast, -⟩
  · simp [hnone] at h
  · obtain ⟨rfl, rfl⟩ := Prod.mk.inj (Option.some.inj (hsome.symm.trans h))
    exact ⟨gap, blanks, hpart, hgap, hblanks, hne, hname, hlast⟩

theorem exists_callAt {query : List Char} {before after : List Cell}
    (hstanding : Standing (cells query) before stage after) (hselection : selection ∈ selections stage)
    (hcall : callOf? stage selection = some call) :
    ∃ front head inside back paren close name,
      Bytes.CallAt query selection.selector before stage after front head inside back paren close ∧
      selection.start = front.length ∧ quotedName? (text inside) = some name ∧
      call = ⟨front, text (head ++ paren :: inside ++ [close]), column name, text back⟩ ∧
      ∀ c ∈ (text front).getLast?, isNameChar c = false := by
  obtain ⟨front, head, paren, arguments, hrow, hstart, hsize, hparen, hcode, hselects, hhead, hlast⟩ :=
    Bytes.exists_selection hstanding hselection
  have hdrop : stage.body.drop (selection.start + selection.size) = arguments := by
    rw [hrow, hstart, hsize, ← List.drop_drop, List.drop_left]
    simp
  cases hclosing : closingParen? 0 arguments with
  | none => simp [callOf?, hdrop, hclosing] at hcall
  | some n =>
      obtain ⟨inside, close, back, rfl, rfl, hclose, -⟩ := closingParen?_eq hclosing
      rw [Bytes.callOf?_eq hrow hstart hsize hclosing] at hcall
      obtain ⟨name, hname, rfl⟩ := Option.map_eq_some_iff.mp hcall
      exact ⟨front, head, inside, back, paren, close, name,
        ⟨hstanding, hrow, hparen, hclose, hclosing, hcode, hselects, hhead⟩, hstart, hname, rfl, hlast⟩

end Replacement

/-! ## The stages of a mended query -/

section Stages

variable {query : List Char} {pre post : List Stage} {stage : Stage} {function field : List Char}
  {call body : List Cell}

theorem trimmed_alignRow (hcall : ∀ cell ∈ call, cell.isSeparator = false) :
    Stage.Trimmed ⟨alignRow function field call, gapRow⟩ where
  head := ⟨⟨'a', .code⟩, rfl, by decide⟩
  last := ⟨⟨')', .code⟩, List.getLast?_concat, by decide⟩
  body := by
    intro cell hcell
    rcases List.mem_append.mp hcell with hcell | hcell
    · rcases List.mem_append.mp hcell with hcell | hcell
      · exact isSeparator_codeRow cell hcell
      · exact hcall cell hcell
    · exact isSeparator_codeRow cell hcell
  gap := show ∀ cell ∈ gapRow, cell.isGap = true by decide

theorem hasVerb_alignRow : Stage.hasVerb ⟨alignRow function field call, gapRow⟩ "align" = true := by
  rfl

theorem layout_mended (hstages : (layout query).stages = pre ++ stage :: post)
    (hfirst : ∃ cell ∈ stage.body.head?, cell.isLiteral = false)
    (hfunction : ∀ c ∈ function, isNameChar c = true) (hfield : ∀ c ∈ field, isNameChar c = true)
    {last : Option Char} (hcall : Scanner.Settles (text call) call last)
    (hcallBody : ∀ cell ∈ call, cell.isSeparator = false) (hbody : Stage.Trimmed ⟨body, stage.gap⟩)
    (hpaints : (Scanner.atCode (some '|')).Paints
      (body ++ (stage.gap ++ post.flatMap Stage.cells)))
    {output : List Char} (houtput : output = text ((layout query).lead ++ pre.flatMap Stage.cells) ++
      (("align ".toList ++ field ++ [':'] ++ function ++ ['('] ++ text call ++ ") | ".toList) ++
        text (body ++ (stage.gap ++ post.flatMap Stage.cells)))) :
    layout output =
      ⟨(layout query).lead,
        pre ++ ⟨alignRow function field call, gapRow⟩ :: ⟨body, stage.gap⟩ :: post⟩ := by
  have hstanding := standing_of_stages hstages
  obtain ⟨first, hhead, hcode⟩ := hfirst
  obtain ⟨rest, hrest⟩ := List.head?_eq_some_iff.mp hhead
  have hrow : cells query = ((layout query).lead ++ pre.flatMap Stage.cells) ++ first :: (rest ++
      (stage.gap ++ post.flatMap Stage.cells)) := by
    rw [hstanding.row_eq, hrest]
    simp
  have hcells := cells_insert hrow hstanding.front hcode (settles_alignRow hfunction hfield hcall)
    hpaints
  have hold : Stage.Apart (pre ++ stage :: post) := hstages ▸ Layout.apart (cells query)
  have hnew : Stage.Apart (pre ++ ⟨alignRow function field call, gapRow⟩ ::
      ⟨body, stage.gap⟩ :: post) :=
    hold.insert (trimmed_alignRow hcallBody) rfl hbody rfl
  have hlead : ∀ cell ∈ (layout query).lead, cell.isGap = true := Layout.gap_lead (cells query)
  rw [layout, houtput, hcells, ← Layout.ofCells_eq hlead hnew]
  simp [Stage.cells]

section Mended

variable {selector : String} {front head inside back : List Cell} {paren close : Cell}

theorem layout_filter (hstages : (layout query).stages = pre ++ stage :: post)
    (h : Bytes.CallAt query "m" ((layout query).lead ++ pre.flatMap Stage.cells) stage
      (post.flatMap Stage.cells) front head inside back paren close)
    (hverb : stage.verb? = some "filter") (hlast : ∀ c ∈ (text front).getLast?, isNameChar c = false)
    (hfunction : ∀ c ∈ function, isNameChar c = true) (metric : List Char)
    {output : List Char} (houtput : output = text ((layout query).lead ++ pre.flatMap Stage.cells) ++
      (alignStage function
          ⟨front, text (head ++ paren :: inside ++ [close]), column metric, text back⟩ ++
        text front ++ column metric ++ text back) ++
      text (stage.gap ++ post.flatMap Stage.cells)) :
    layout output = ⟨(layout query).lead,
      pre ++ ⟨alignRow function (column metric) (head ++ paren :: inside ++ [close]), gapRow⟩ ::
        ⟨front ++ codeRow (column metric) ++ back, stage.gap⟩ :: post⟩ := by
  obtain ⟨hname, first, hfirst, -⟩ := column_name metric
  have hne : column metric ≠ [] := by rintro hnil; simp [hnil] at hfirst
  have hplace : ((layout query).lead ++ pre.flatMap Stage.cells, stage) ∈ places query := by
    rw [places_eq hstages]
    simp
  obtain ⟨cell, rest, hfront, hcellName, hcode⟩ := h.exists_front hplace hverb (by decide)
  have hbody : stage.body = front ++ ((head ++ paren :: inside ++ [close]) ++ back) := by
    rw [h.body]
    simp
  have hnew := h.standing.trimmed.splice hbody
    (ends_codeRow hne fun c hc => (solid_of_isNameChar (hname c hc)).2.1) isSeparator_codeRow
  have hpaints := h.paints_filter hfront hcode hcellName hlast hne hname
  have hcall : ∀ cell ∈ head ++ paren :: inside ++ [close], cell.isSeparator = false :=
    fun cell hcell => h.standing.trimmed.body cell
      (hbody ▸ List.mem_append_right _ (List.mem_append_left _ hcell))
  rw [← List.append_assoc front] at hnew
  refine layout_mended hstages ⟨cell, by rw [hbody, hfront]; rfl, hcode⟩ hfunction hname
    h.settles_call hcall hnew hpaints ?_
  simp [houtput, alignStage_eq]

theorem layout_aggregate (hstages : (layout query).stages = pre ++ stage :: post)
    (h : Bytes.CallAt query selector ((layout query).lead ++ pre.flatMap Stage.cells) stage
      (post.flatMap Stage.cells) front head inside back paren close)
    {verb kept gap blanks spaces tail : List Cell} {outer last : Cell} {newVerb : List Char}
    (hfront : front = verb ++ (kept ++ (gap ++ outer :: blanks)))
    (hback : back = spaces ++ last :: tail)
    (hverb : verb ≠ [] ∧ ∀ cell ∈ verb, isNameChar cell.char = true)
    (hcode : ∀ cell ∈ verb.head?, cell.isLiteral = false)
    (hgap : ∀ cell ∈ gap, isBlank cell.char = true) (houter : outer.char = '(')
    (hblanks : ∀ cell ∈ blanks, isBlank cell.char = true) (hlast : last.isCode ')' = true)
    (hnewVerb : newVerb ≠ [] ∧ ∀ c ∈ newVerb, isNameChar c = true)
    (hfunction : ∀ c ∈ function, isNameChar c = true) (metric : List Char)
    {output : List Char} (houtput : output = text ((layout query).lead ++ pre.flatMap Stage.cells) ++
      (alignStage function
          ⟨front, text (head ++ paren :: inside ++ [close]), column metric, text back⟩ ++
        newVerb ++ text kept ++ '(' :: column metric ++ ')' :: text tail) ++
      text (stage.gap ++ post.flatMap Stage.cells)) :
    layout output = ⟨(layout query).lead,
      pre ++ ⟨alignRow function (column metric) (head ++ paren :: inside ++ [close]), gapRow⟩ ::
        ⟨codeRow newVerb ++ kept ++ codeRow ('(' :: column metric ++ [')']) ++ tail,
          stage.gap⟩ :: post⟩ := by
  have hname := (column_name metric).1
  obtain ⟨first, verb, rfl⟩ := List.exists_cons_of_ne_nil hverb.1
  have hfirst : first.isLiteral = false := hcode first (by simp)
  have hbody : stage.body = [] ++ (first :: verb ++ (kept ++ ((gap ++ outer :: blanks ++ (head ++
      paren :: inside ++ [close]) ++ (spaces ++ [last])) ++ tail))) := by
    rw [h.body, hfront, hback]
    simp
  have hverbNew := h.standing.trimmed.splice hbody
    (ends_codeRow hnewVerb.1 fun c hc => (solid_of_isNameChar (hnewVerb.2 c hc)).2.1)
    isSeparator_codeRow
  have hparens : ∀ c ∈ '(' :: column metric ++ [')'], isBlank c = false := by
    intro c hc
    simp only [List.cons_append, List.mem_cons, List.mem_append, List.not_mem_nil, or_false] at hc
    rcases hc with rfl | hc | rfl
    · decide
    · exact (solid_of_isNameChar (hname c hc)).2.1
    · decide
  rw [List.nil_append, ← List.append_assoc (codeRow newVerb)] at hverbNew
  have hnew := hverbNew.splice rfl (ends_codeRow (by simp) hparens) isSeparator_codeRow
  have hcall : ∀ cell ∈ head ++ paren :: inside ++ [close], cell.isSeparator = false :=
    fun cell hcell => h.standing.trimmed.body cell (by rw [h.body]; simp at hcell ⊢; tauto)
  have hpaints := h.paints_aggregate hfront hback hfirst hverb.2 hgap houter hblanks hlast hnewVerb
    hname
  rw [← List.append_assoc] at hnew
  refine layout_mended hstages ⟨first, by rw [hbody]; rfl, hfirst⟩ hfunction hname h.settles_call
    hcall hnew hpaints ?_
  simp [houtput, alignStage_eq]

/-! ## How the column is used -/

/-- A stage in which `x` and `y` surround a metric call uses the column `field` of the metric, which
`function` aligns: it compares the average, or it aggregates by the function that has the call as
its only argument. -/
inductive Uses (field : List Char) : String → List Char → List Char → List Char → List Char → Prop
  | filter (middle y : List Char) :
      Uses field "filter" ("filter".toList ++ middle) y "avg".toList
        ("filter".toList ++ middle ++ field ++ y)
  | aggregate {verb : String} {middle name gap blanks spaces : List Char} (rest : List Char)
      (haggregation : aggregationVerbs.contains verb = true)
      (hfunction : functions.contains (String.ofList name) = true)
      (hmiddle : ∃ c ∈ middle.getLast?, isNameChar c = false)
      (hblanks : ∀ c ∈ gap ++ blanks ++ spaces, isBlank c = true) :
      Uses field verb (verb.toList ++ middle ++ name ++ gap ++ '(' :: blanks)
        (spaces ++ ')' :: rest) name
        ((if verb = "statsby" then "aggregate" else verb).toList ++ middle ++ name ++
          '(' :: field ++ ')' :: rest)

theorem exists_layout_filter (hstages : (layout query).stages = pre ++ stage :: post)
    (h : Bytes.CallAt query "m" ((layout query).lead ++ pre.flatMap Stage.cells) stage
      (post.flatMap Stage.cells) front head inside back paren close)
    (hverb : stage.verb? = some "filter") (hlast : ∀ c ∈ (text front).getLast?, isNameChar c = false)
    (metric : List Char) {output : List Char}
    (houtput : output = text ((layout query).lead ++ pre.flatMap Stage.cells) ++
      (alignStage "avg".toList
          ⟨front, text (head ++ paren :: inside ++ [close]), column metric, text back⟩ ++
        text front ++ column metric ++ text back) ++
      text (stage.gap ++ post.flatMap Stage.cells)) :
    ∃ function body, layout output = ⟨(layout query).lead,
        pre ++ ⟨alignRow function (column metric) (head ++ paren :: inside ++ [close]), gapRow⟩ ::
          ⟨body, stage.gap⟩ :: post⟩ ∧
      Uses (column metric) "filter" (text front) (text back) function (text body) := by
  have havg : ∀ c ∈ "avg".toList, isNameChar c = true := by simp; decide
  refine ⟨_, _, layout_filter hstages h hverb hlast havg metric houtput, ?_⟩
  obtain ⟨hrun, -⟩ := h.standing.trimmed.text_of_verb? hverb
  obtain ⟨blanks, hblanks, hhead⟩ := h.head_text
  have htext : stage.text = text front ++ ("m".toList ++ (blanks ++ '(' ::
      text (inside ++ close :: back))) := by
    rw [Stage.text, h.body, text_append, text_append, hhead, text_cons, Bytes.char_of_isCode h.paren_code,
      List.append_assoc]
  obtain ⟨middle, hmiddle⟩ := front_of_run htext hrun h.isNameChar_selector hblanks hlast (by simp)
  have huses : Uses (column metric) "filter" _ _ _ _ := Uses.filter middle (text back)
  rw [← hmiddle] at huses
  simpa using huses

/-- The cells around a metric call that is the only argument of the aggregate `name`: the verb of
the stage, what is kept up to the parenthesis of the aggregate, and what follows the call. -/
structure Aggregated (verb : String) (middle name : List Char) (front back : List Cell)
    (verbRow kept gap blanks spaces tail : List Cell) (outer last : Cell) : Prop where
  front : front = verbRow ++ (kept ++ (gap ++ outer :: blanks))
  back : back = spaces ++ last :: tail
  verb : text verbRow = verb.toList
  kept : text kept = middle ++ name
  stops : ∃ c ∈ middle.getLast?, isNameChar c = false
  named : ∀ c ∈ name, isNameChar c = true
  function : functions.contains (String.ofList name) = true
  gap : ∀ cell ∈ gap, isBlank cell.char = true
  outer : outer.char = '('
  blanks : ∀ cell ∈ blanks, isBlank cell.char = true
  spaces : ∀ cell ∈ spaces, isBlank cell.char = true
  last : last.isCode ')' = true

def verbBehind (verb : String) : List Char :=
  (if verb = "statsby" then "aggregate" else verb).toList

theorem exists_aggregated
    (h : Bytes.CallAt query selector ((layout query).lead ++ pre.flatMap Stage.cells) stage
      (post.flatMap Stage.cells) front head inside back paren close) {verb : String}
    (hverb : stage.verb? = some verb) (haggregation : aggregationVerbs.contains verb = true)
    {call : Call} (hcall : call.before = front ∧ call.after = text back) {replacement : List Char}
    (hreplacement : alignAggregate? verb call = some replacement) :
    ∃ middle name verbRow kept gap blanks spaces tail outer last,
      Aggregated verb middle name front back verbRow kept gap blanks spaces tail outer last ∧
      replacement = alignStage name call ++ verbBehind verb ++ text kept ++ '(' :: call.column ++
        ')' :: text tail := by
  obtain ⟨start, name, rest, hcalled, hfunction, hclosed, rfl⟩ :=
    alignAggregate?_eq_some hreplacement
  rw [hcall.1] at hcalled
  rw [hcall.2] at hclosed
  obtain ⟨gap, blanks, htext, hgap, hblanks, hne, hname, hlast⟩ := enclosingCall?_eq_some hcalled
  obtain ⟨hrun, hverbNe⟩ := h.standing.trimmed.text_of_verb? hverb
  have hstage : stage.text = start ++ (name ++ (gap ++ '(' :: (blanks ++ (text head ++ '(' ::
      text (inside ++ close :: back))))) := by
    rw [Stage.text, h.body, text_append, htext, text_append, text_cons, Bytes.char_of_isCode h.paren_code]
    simp
  obtain ⟨middle, rfl⟩ := front_of_verb hstage hrun haggregation hname hgap hlast hfunction
  have hmiddle : ∃ c ∈ middle.getLast?, isNameChar c = false := by
    rcases middle.eq_nil_or_concat' with rfl | ⟨more, c, rfl⟩
    · have hend := hlast _ (by rw [List.append_nil, List.getLast?_eq_some_getLast hverbNe]; rfl)
      have hname : ∀ c ∈ verb.toList, isNameChar c = true := fun c hc =>
        List.mem_takeWhile_imp (hrun.symm ▸ hc)
      simp [hname _ (List.getLast_mem hverbNe)] at hend
    · exact ⟨c, by simp, hlast c (by simp)⟩
  -- The cells behind the texts.
  rw [show verb.toList ++ middle ++ name ++ gap ++ '(' :: blanks =
    verb.toList ++ ((middle ++ name) ++ (gap ++ '(' :: blanks)) by simp] at htext
  obtain ⟨verbRow, front', hfront, hverbRow, htext⟩ := row_of_text htext
  obtain ⟨kept, front', rfl, hkept, htext⟩ := row_of_text htext
  obtain ⟨gapCells, front', rfl, hgapCells, htext⟩ := row_of_text htext
  obtain ⟨outer, blankCells, rfl, houter, hblankCells⟩ := row_of_text_cons htext
  obtain ⟨spaces, last, tail, hback, hspaces, hlastCode⟩ := h.closed_of_trimStart hclosed
  have hrest : rest = text tail := by
    have htrim : trimStart (text back) = ')' :: text tail := by
      rw [hback, text_append, text_cons, Bytes.char_of_isCode hlastCode, trimStart,
        List.dropWhile_append_of_pos (by simpa [text] using hspaces)]
      rfl
    rw [htrim] at hclosed
    exact (List.cons.inj hclosed).2.symm
  have hrow {row : List Cell} {part : List Char} (htext : text row = part)
      (hpart : ∀ c ∈ part, isBlank c = true) : ∀ cell ∈ row, isBlank cell.char = true :=
    fun cell hcell => hpart _ (htext ▸ List.mem_map_of_mem hcell)
  refine ⟨middle, name, verbRow, kept, gapCells, blankCells, spaces, tail, outer, last,
    ⟨hfront, hback, hverbRow, hkept, hmiddle, hname, hfunction, hrow hgapCells hgap, houter,
      hrow hblankCells hblanks, hspaces, hlastCode⟩, ?_⟩
  have hdrop : (verb.toList ++ middle).drop verb.length = middle := by
    rw [← String.length_toList, List.drop_left]
  rw [hdrop, hkept, hrest, verbBehind]
  simp

section Aggregated

variable {verb : String} {middle name : List Char}
  {verbRow kept gap blanks spaces tail : List Cell} {outer last : Cell}

theorem Aggregated.layout_eq
    (haggregated : Aggregated verb middle name front back verbRow kept gap blanks spaces tail outer
      last)
    (hstages : (layout query).stages = pre ++ stage :: post)
    (h : Bytes.CallAt query selector ((layout query).lead ++ pre.flatMap Stage.cells) stage
      (post.flatMap Stage.cells) front head inside back paren close)
    (hverb : stage.verb? = some verb) (metric : List Char) {output : List Char}
    (houtput : output = text ((layout query).lead ++ pre.flatMap Stage.cells) ++
      (alignStage name
          ⟨front, text (head ++ paren :: inside ++ [close]), column metric, text back⟩ ++
        verbBehind verb ++ text kept ++ '(' :: column metric ++ ')' :: text tail) ++
      text (stage.gap ++ post.flatMap Stage.cells)) :
    layout output = ⟨(layout query).lead,
      pre ++ ⟨alignRow name (column metric) (head ++ paren :: inside ++ [close]), gapRow⟩ ::
        ⟨codeRow (verbBehind verb) ++ kept ++ codeRow ('(' :: column metric ++ [')']) ++ tail,
          stage.gap⟩ :: post⟩ := by
  obtain ⟨hrun, hverbNe⟩ := h.standing.trimmed.text_of_verb? hverb
  have hverbName : ∀ c ∈ verb.toList, isNameChar c = true := by
    intro c hc
    rw [← hrun] at hc
    exact List.mem_takeWhile_imp hc
  have hplace : ((layout query).lead ++ pre.flatMap Stage.cells, stage) ∈ places query := by
    rw [places_eq hstages]
    simp
  obtain ⟨first, more, hbody, -, hcode⟩ := exists_first_of_verb? hplace hverb
  have hnewVerb : verbBehind verb ≠ [] ∧ ∀ c ∈ verbBehind verb, isNameChar c = true := by
    rw [verbBehind]
    split
    · exact ⟨by simp, by simp; decide⟩
    · exact ⟨hverbNe, hverbName⟩
  have hverbCells : verbRow ≠ [] ∧ ∀ cell ∈ verbRow, isNameChar cell.char = true := by
    refine ⟨fun hnil => hverbNe (by rw [← haggregated.verb, hnil]; rfl),
      fun cell hcell => hverbName _ ?_⟩
    rw [← haggregated.verb]
    exact List.mem_map_of_mem hcell
  have hverbCode : ∀ cell ∈ verbRow.head?, cell.isLiteral = false := by
    intro cell hcell
    obtain ⟨more, rfl⟩ := List.head?_eq_some_iff.mp hcell
    rw [h.body, haggregated.front, List.cons_append, List.cons_append, List.cons.injEq] at hbody
    exact hbody.1 ▸ hcode
  exact layout_aggregate hstages h haggregated.front haggregated.back hverbCells hverbCode
    haggregated.gap haggregated.outer haggregated.blanks haggregated.last hnewVerb haggregated.named
    metric houtput

theorem Aggregated.uses (haggregation : aggregationVerbs.contains verb = true)
    (h : Aggregated verb middle name front back verbRow kept gap blanks spaces tail outer last)
    (field : List Char) :
    Uses field verb (text front) (text back) name
      (text (codeRow (verbBehind verb) ++ kept ++ codeRow ('(' :: field ++ [')']) ++ tail)) := by
  have hall : ∀ c ∈ text gap ++ text blanks ++ text spaces, isBlank c = true := by
    simp only [List.mem_append]
    rintro c ((hc | hc) | hc)
    exacts [forall_mem_text h.gap c hc, forall_mem_text h.blanks c hc, forall_mem_text h.spaces c hc]
  have huses : Uses field verb _ _ _ _ :=
    Uses.aggregate (text tail) haggregation h.function h.stops hall
  have hfrontText : text front =
      verb.toList ++ middle ++ name ++ text gap ++ '(' :: text blanks := by
    rw [h.front, text_append, h.verb, text_append, h.kept, text_append, text_cons, h.outer]
    simp
  have hbackText : text back = text spaces ++ ')' :: text tail := by
    rw [h.back, text_append, text_cons, Bytes.char_of_isCode h.last]
  rw [hfrontText, hbackText]
  simpa [h.kept, verbBehind] using huses

end Aggregated

theorem exists_layout_aggregate (hstages : (layout query).stages = pre ++ stage :: post)
    (h : Bytes.CallAt query selector ((layout query).lead ++ pre.flatMap Stage.cells) stage
      (post.flatMap Stage.cells) front head inside back paren close) {verb : String}
    (hverb : stage.verb? = some verb) (haggregation : aggregationVerbs.contains verb = true)
    (metric : List Char) {replacement output : List Char}
    (hreplacement : alignAggregate? verb
      ⟨front, text (head ++ paren :: inside ++ [close]), column metric, text back⟩ =
        some replacement)
    (houtput : output = text ((layout query).lead ++ pre.flatMap Stage.cells) ++ replacement ++
      text (stage.gap ++ post.flatMap Stage.cells)) :
    ∃ function body, layout output = ⟨(layout query).lead,
        pre ++ ⟨alignRow function (column metric) (head ++ paren :: inside ++ [close]), gapRow⟩ ::
          ⟨body, stage.gap⟩ :: post⟩ ∧
      Uses (column metric) verb (text front) (text back) function (text body) := by
  obtain ⟨middle, name, verbRow, kept, gap, blanks, spaces, tail, outer, last, haggregated, rfl⟩ :=
    exists_aggregated h hverb haggregation ⟨rfl, rfl⟩ hreplacement
  exact ⟨name, _, haggregated.layout_eq hstages h hverb metric houtput,
    haggregated.uses haggregation _⟩

end Mended

theorem changes_of_align (h : (layout query).stages.any (·.hasVerb "align") = true) :
    (patch query).changes = [] := by
  rw [patch, if_pos (by rw [h]; rfl)]
  rfl

end Stages

theorem fired_iff (context : Context) (query : String) :
    (alignMetric.apply context query).fired = true ↔ (patch query.toList).changes ≠ [] :=
  Pass.fired_ofPatch ..

/-! ## One stage more -/

/-- The text calls a selector for one quoted metric. -/
def Spells (selector : String) (call metric : List Char) : Prop :=
  ∃ gap blanks quote spaces, (∀ c ∈ gap ++ blanks ++ spaces, isBlank c = true) ∧
    (quote = '"' ∨ quote = '\'') ∧ metric ≠ [] ∧ (∀ c ∈ metric, c ≠ quote) ∧
    call = selector.toList ++ gap ++ '(' :: blanks ++ quote :: metric ++ quote :: spaces ++ [')']

/-- A query selects one metric outside literals, by the call that `x` and `y` surround in the stage
with this number. -/
def OnlyCall (query : List Char) (number : Nat) (x call y metric : List Char) : Prop :=
  ∃ selection before stage, (sites (cells query)).filterMap selectionAt? = [selection] ∧
    (places query)[number]? = some (before, stage) ∧ stage.text = x ++ call ++ y ∧
    selection.start = before.length + x.length ∧ Spells selection.selector call metric

theorem spells_of_callAt {query : List Char} {selector : String} {stage : Stage}
    {before after front head inside back : List Cell} {paren close : Cell}
    (h : Bytes.CallAt query selector before stage after front head inside back paren close)
    {metric : List Char} (hmetric : quotedName? (text inside) = some metric) :
    Spells selector (text (head ++ paren :: inside ++ [close])) metric := by
  obtain ⟨gap, hgap, hhead⟩ := h.head_text
  obtain ⟨blanks, quote, spaces, hblanks, hquote, hspaces, hchars, hne, hinside⟩ :=
    quotedName?_eq hmetric
  refine ⟨gap, blanks, quote, spaces, ?_, hquote, hne, hchars, ?_⟩
  · simp only [List.mem_append]
    rintro c ((hc | hc) | hc)
    exacts [hgap c hc, hblanks c hc, hspaces c hc]
  · rw [text_append, text_append, hhead, text_cons, Bytes.char_of_isCode h.paren_code, hinside,
      text_cons, Bytes.char_of_isCode h.close_code]
    simp

theorem onlyCall_of_stages {query : List Char} {pre post : List Stage} {stage : Stage}
    (hstages : (layout query).stages = pre ++ stage :: post) {selection : Selection}
    (hone : selections stage = [selection]) (hothers : ∀ other ∈ pre ++ post, selections other = [])
    {x call y metric : List Char} (htext : stage.text = x ++ call ++ y)
    (hstart : selection.start = x.length) (hspells : Spells selection.selector call metric) :
    OnlyCall query pre.length x call y metric := by
  have hnone {before : List Cell} {stages : List Stage} (h : ∀ other ∈ stages, selections other = []) :
      (placesFrom before stages).flatMap (fun place =>
        (selections place.2).map (Selection.shift place.1.length)) = [] := by
    refine List.flatMap_eq_nil_iff.mpr fun place hplace => ?_
    have hmem : place.2 ∈ stages := by
      rw [← map_snd_placesFrom before stages]
      exact List.mem_map_of_mem hplace
    rw [h place.2 hmem]
    rfl
  refine ⟨selection.shift ((layout query).lead ++ pre.flatMap Stage.cells).length,
    (layout query).lead ++ pre.flatMap Stage.cells, stage, ?_, ?_, htext, ?_, hspells⟩
  · rw [selections_query, places_eq hstages, List.flatMap_append, List.flatMap_cons, hone,
      hnone fun other hother => hothers other (by simp [hother]),
      hnone fun other hother => hothers other (by simp [hother])]
    rfl
  · rw [places_eq hstages, ← length_placesFrom (layout query).lead pre, List.getElem?_append_right le_rfl,
      Nat.sub_self]
    rfl
  · rw [Selection.shift, hstart]

end AlignMetric

/-- If metrics are aligned, one `align` stage is inserted for the only metric call of the query, the
stage behind it uses the column in place of the call, and no other stage changes.  Then there is
nothing left to align. -/
theorem alignMetric_inserts_stage (context : Context) (query : String)
    (hfired : (alignMetric.apply context query).fired = true) :
    ∃ pre post x call y metric verb function mended,
      split query.toList = pre ++ [x ++ call ++ y] ++ post ∧
      split (alignMetric.apply context query).query.toList =
        pre ++ ["align ".toList ++ AlignMetric.column metric ++ ":".toList ++ function ++ "(".toList ++
          call ++ ")".toList, mended] ++ post ∧
      AlignMetric.OnlyCall query.toList pre.length x call y metric ∧
      leadingName? (x ++ call ++ y) = some verb.toList ∧
      AlignMetric.Uses (AlignMetric.column metric) verb x y function mended ∧
      (∀ c ∈ AlignMetric.column metric, isNameChar c = true) ∧
      (∃ c ∈ (AlignMetric.column metric).head?, c.isDigit = false) ∧
      (alignMetric.apply context (alignMetric.apply context query).query).fired = false := by
  have hchanges := (AlignMetric.fired_iff context query).mp hfired
  obtain ⟨pre, stage, post, selection, replacement, hstages, hone, hmend, hothers, hafter⟩ :=
    AlignMetric.exists_mended hchanges
  obtain ⟨call, verb, hcall, hverb, hcases⟩ := AlignMetric.mendStage?_eq_some hone hmend
  obtain ⟨front, head, inside, back, paren, close, metric, h, hstart, hmetric, rfl, hlast⟩ :=
    AlignMetric.exists_callAt (standing_of_stages hstages) (by rw [hone]; simp) hcall
  obtain ⟨function, body, hlayout, huses⟩ : ∃ function body,
      layout (AlignMetric.patch query.toList).after = ⟨(layout query.toList).lead,
        pre ++ ⟨AlignMetric.alignRow function (AlignMetric.column metric)
          (head ++ paren :: inside ++ [close]), gapRow⟩ :: ⟨body, stage.gap⟩ :: post⟩ ∧
      AlignMetric.Uses (AlignMetric.column metric) verb (text front) (text back) function
        (text body) := by
    rcases hcases with ⟨rfl, hfilter⟩ | ⟨haggregation, haggregate⟩
    · obtain ⟨hselector, rfl⟩ := AlignMetric.alignFilter?_eq_some hfilter
      exact AlignMetric.exists_layout_filter hstages (hselector ▸ h) hverb hlast metric hafter
    · exact AlignMetric.exists_layout_aggregate hstages h hverb haggregation metric haggregate hafter
  have htext : stage.text = text front ++ text (head ++ paren :: inside ++ [close]) ++ text back := by
    rw [Stage.text, h.body]
    simp
  have houtput : (alignMetric.apply context query).query.toList =
      (AlignMetric.patch query.toList).after := String.toList_ofList
  refine ⟨pre.map Stage.text, post.map Stage.text, text front,
    text (head ++ paren :: inside ++ [close]), text back, metric, verb, function, text body, ?_, ?_, ?_,
    ?_, huses, (AlignMetric.column_name metric).1, (AlignMetric.column_name metric).2, ?_⟩
  · rw [split, hstages, ← htext]
    simp
  · rw [houtput, split, hlayout]
    simp [Stage.text, AlignMetric.alignRow]
  · rw [List.length_map]
    exact AlignMetric.onlyCall_of_stages hstages hone hothers htext (by simpa [text] using hstart)
      (AlignMetric.spells_of_callAt h hmetric)
  · obtain ⟨name, hname, rfl⟩ := Option.map_eq_some_iff.mp hverb
    rw [← htext, hname, String.toList_ofList]
  · refine Bool.eq_false_iff.mpr fun hagain => (AlignMetric.fired_iff context _).mp hagain ?_
    rw [houtput]
    refine AlignMetric.changes_of_align ?_
    rw [hlayout]
    simp [AlignMetric.hasVerb_alignRow]

/-- The metric in an aggregate moves into a stage of its own; the call in the literal stays. -/
theorem alignMetric_inserts_stage_statsby :
    let query := "filter x = \"m('a')\" | statsby load: max( m(\"cpu.load\") ), group_by(host) | limit 5"
    (alignMetric.apply {} query).fired = true ∧
      (alignMetric.apply {} query).query = "filter x = \"m('a')\" | " ++
        "align cpu_load:max(m(\"cpu.load\")) | aggregate load: max(cpu_load), group_by(host) | limit 5" ∧
      ∃ pre post x call y metric verb function mended,
        split query.toList = pre ++ [x ++ call ++ y] ++ post ∧
        split (alignMetric.apply {} query).query.toList =
          pre ++ ["align ".toList ++ AlignMetric.column metric ++ ":".toList ++ function ++
            "(".toList ++ call ++ ")".toList, mended] ++ post ∧
        AlignMetric.OnlyCall query.toList pre.length x call y metric ∧
        AlignMetric.Uses (AlignMetric.column metric) verb x y function mended ∧
        (alignMetric.apply {} (alignMetric.apply {} query).query).fired = false := by
  intro query
  have hfired : (alignMetric.apply {} query).fired = true := by decide +kernel
  obtain ⟨pre, post, x, call, y, metric, verb, function, mended, hsplit, houtput, honly, -, huses, -, -,
    hagain⟩ := alignMetric_inserts_stage {} query hfired
  exact ⟨hfired, by decide +kernel, pre, post, x, call, y, metric, verb, function, mended, hsplit, houtput,
    honly, huses, hagain⟩

end OpalRepair
