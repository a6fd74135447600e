import Mathlib
import OpalRepair.Proofs.Clause.Pass
import OpalRepair.Proofs.Content

/-!
# Templates

A template is a text with holes, and all holes are filled with the same content.  A text that
depends on the content of a literal through a template treats the content as a black box.
-/

namespace OpalRepair

open Query Text

abbrev Template := List (Option Char)

namespace Template

def fill (content : List Char) (template : Template) : List Char :=
  template.flatMap fun piece => piece.elim content fun c => [c]

def plain (text : List Char) : Template := text.map some

def delimited (delimiter : Char) (template : Template) : Template :=
  template.flatMap fun piece =>
    piece.elim [some delimiter, none, some delimiter] fun c => [some c]

variable (content : List Char)

@[simp] theorem fill_nil : fill content [] = [] := rfl

@[simp] theorem fill_none (template : Template) :
    fill content (none :: template) = content ++ fill content template := rfl

@[simp] theorem fill_some (c : Char) (template : Template) :
    fill content (some c :: template) = c :: fill content template := rfl

@[simp] theorem fill_append (a b : Template) :
    fill content (a ++ b) = fill content a ++ fill content b := List.flatMap_append

@[simp] theorem fill_plain (text : List Char) : fill content (plain text) = text := by
  induction text with
  | nil => rfl
  | cons c text ih => simpa [plain] using ih

theorem fill_delimited (delimiter : Char) (template : Template) :
    fill content (delimited delimiter template) =
      fill (delimiter :: (content ++ [delimiter])) template := by
  induction template with
  | nil => rfl
  | cons piece template ih =>
      have hrest : delimited delimiter (piece :: template) =
        (piece.elim [some delimiter, none, some delimiter] fun c => [some c]) ++
          delimited delimiter template := rfl
      rw [hrest, fill_append, ih]
      cases piece <;> simp

theorem fill_intercalate (separator : List Char) (templates : List Template) :
    fill content (List.intercalate (plain separator) templates) =
      List.intercalate separator (templates.map (fill content)) := by
  induction templates with
  | nil => rfl
  | cons template templates ih =>
      cases templates with
      | nil => simp [List.intercalate]
      | cons other templates =>
          simp only [List.intercalate, List.map_cons, List.intersperse_cons_cons,
            List.flatten_cons, fill_append, fill_plain] at ih ⊢
          rw [ih]

end Template

/-! ## Texts with a literal -/

def Query.Literal.between (kind : Literal) (front behind content : List Char) : List Char :=
  front ++ kind.delimiter :: (content ++ kind.delimiter :: behind)

def Query.Literal.Holds (kind : Literal) (content : List Char) : Prop :=
  '\\' ∉ content ∧ kind.delimiter ∉ content

namespace Query.Literal

theorem isBlank_delimiter (kind : Literal) : isBlank kind.delimiter = false :=
  (delimiter_ends kind).2.1

theorem text_between (kind : Literal) (front behind : List Cell) (content : List Char) :
    text (front ++ (literalRow kind content ++ behind)) =
      kind.between (text front) (text behind) content := by
  simp [between]

theorem trimStart_between (kind : Literal) (front behind content : List Char) :
    trimStart (kind.between front behind content) =
      kind.between (trimStart front) behind content := by
  induction front with
  | nil => simp [between, trimStart, kind.isBlank_delimiter]
  | cons c front ih =>
      cases hc : isBlank c with
      | true => simpa [between, trimStart, hc] using ih
      | false => simp [between, trimStart, hc]

theorem trim_between (kind : Literal) (front behind content : List Char) :
    trim (kind.between front behind content) =
      kind.between (trimStart front) (trimEnd behind) content := by
  have hends (front : List Char) : trimEnd (kind.between front behind content) =
      kind.between front (trimEnd behind) content := by
    rw [between, trimEnd, dropTrailing_append_cons _ kind.isBlank_delimiter,
      dropTrailing_append_cons _ kind.isBlank_delimiter]
    rfl
  rw [trim, trimStart_between, hends]

end Query.Literal

namespace Template

def around (kind : Literal) (front behind : List Char) : Template :=
  plain front ++ some kind.delimiter :: none :: some kind.delimiter :: plain behind

@[simp] theorem fill_around (kind : Literal) (front behind content : List Char) :
    fill content (around kind front behind) = kind.between front behind content := by
  simp [around, Literal.between]

def Patterned? (ok : List Char → Prop) (text? : List Char → Option (List Char)) : Prop :=
  ∃ template? : Option Template, ∀ content, ok content →
    text? content = template?.map (fill content)

theorem Patterned?.none {ok : List Char → Prop} {text? : List Char → Option (List Char)}
    (h : ∀ content, ok content → text? content = .none) : Patterned? ok text? :=
  ⟨.none, h⟩

end Template

/-! ## Layouts -/

namespace Query.Layout

theorem cells_foldr_cons (row : List Cell) (layout : Layout) :
    (row.foldr cons layout).cells = row ++ layout.cells := by
  induction row with
  | nil => rfl
  | cons cell row ih => rw [List.foldr_cons, cells_cons, ih, List.cons_append]

theorem exists_stage (kind : Literal) (front behind : List Cell) :
    ∃ lead before start body gap stages, front = lead ++ (before.flatMap Stage.cells ++ start) ∧
      ∀ content, ofCells (front ++ (literalRow kind content ++ behind)) =
        ⟨lead, before ++ ⟨start ++ (literalRow kind content ++ body), gap⟩ :: stages⟩ := by
  obtain ⟨body, gap, stages, hliteral⟩ := ofCells_literalRow kind behind
  obtain ⟨lead, before, start, hfront⟩ := foldr_cons_stage front gap stages
  refine ⟨lead, before, start, body, gap, stages, ?_, fun content => ?_⟩
  · have hcells := congrArg Layout.cells (hfront [])
    rw [cells_foldr_cons] at hcells
    simp only [Layout.cells, List.flatMap_append, List.flatMap_cons, Stage.cells] at hcells
    have hrow : front ++ (gap ++ stages.flatMap Stage.cells) =
        lead ++ (before.flatMap Stage.cells ++ start) ++ (gap ++ stages.flatMap Stage.cells) := by
      simpa [Stage.cells] using hcells
    exact List.append_cancel_right hrow
  · rw [ofCells, List.foldr_append, ← ofCells, hliteral, hfront]

end Query.Layout

theorem Query.Stage.verb?_literal {kind : Literal} {start body gap : List Cell}
    (content : List Char) :
    Stage.verb? ⟨start ++ (literalRow kind content ++ body), gap⟩ = Stage.verb? ⟨start, gap⟩ := by
  have hname : isNameChar kind.delimiter = false := by cases kind <;> decide
  rw [Stage.verb?, Stage.verb?, Stage.text, Literal.text_between, Literal.between,
    leadingName?_stop kind.isBlank_delimiter hname]
  rfl

/-! ## Patches -/

namespace Patch

open Template

variable {ok : List Char → Prop} {a b : List Char → Patch}

def Patterned (ok : List Char → Prop) (patch : List Char → Patch) : Prop :=
  ∃ template quiet, ∀ content, ok content →
    (patch content).after = fill content template ∧ (patch content).changes.isEmpty = quiet

theorem Patterned.const (patch : Patch) : Patterned ok fun _ => patch :=
  ⟨plain patch.after, patch.changes.isEmpty, fun content _ => ⟨(fill_plain content _).symm, rfl⟩⟩

theorem Patterned.append (ha : Patterned ok a) (hb : Patterned ok b) :
    Patterned ok fun content => a content ++ b content := by
  obtain ⟨front, quiet, ha⟩ := ha
  obtain ⟨back, quiet', hb⟩ := hb
  refine ⟨front ++ back, quiet && quiet', fun content hcontent => ?_⟩
  obtain ⟨hafter, hquiet⟩ := ha content hcontent
  obtain ⟨hafter', hquiet'⟩ := hb content hcontent
  constructor
  · rw [fill_append, ← hafter, ← hafter']
    exact List.flatMap_append
  · rw [changes_append, ← hquiet, ← hquiet']
    cases (a content).changes <;> rfl

theorem Patterned.quiet (template : Template) (h : ∀ content, ok content →
      (a content).before = fill content template ∧ (a content).changes = []) : Patterned ok a := by
  refine ⟨template, true, fun content hcontent => ?_⟩
  obtain ⟨hbefore, hchanges⟩ := h content hcontent
  rw [after_eq_before hchanges, hbefore, hchanges]
  exact ⟨rfl, rfl⟩

theorem patterned_pieces {mend? : Stage → Option (List Char)} {body : List Char → List Cell}
    (gap : List Cell) (template : Template)
    (htext : ∀ content, text (body content) = fill content template)
    (h : Patterned? ok fun content => mend? ⟨body content, gap⟩) :
    Patterned ok fun content => Stage.pieces mend? ⟨body content, gap⟩ := by
  obtain ⟨template?, h⟩ := h
  dsimp only at h
  cases template? with
  | none =>
      refine .quiet (template ++ plain (text gap)) fun content hcontent => ?_
      simp only [Stage.pieces, h content hcontent, Stage.text, htext]
      exact ⟨by simp, rfl⟩
  | some new =>
      refine ⟨new ++ plain (text gap), false, fun content hcontent => ?_⟩
      simp only [Stage.pieces, h content hcontent, Option.map_some]
      exact ⟨by simp, rfl⟩

end Patch

/-- A pass is blind to the contents of a hole in a query: its output is given by a template, and the
contents do not decide whether it fires. -/
def Pass.Blind (pass : Pass) (context : Context) (ok : List Char → Prop)
    (query : List Char → List Char) : Prop :=
  ∃ template fires, ∀ content, ok content →
    (pass.apply context (String.ofList (query content))).query.toList =
        Template.fill content template ∧
      (pass.apply context (String.ofList (query content))).fired = fires

theorem Pass.blind_ofPatch {name rationale : String} {patch : List Char → Patch} {context : Context}
    {ok : List Char → Prop} {query : List Char → List Char}
    (h : Patch.Patterned ok fun content => patch (query content)) :
    (Pass.ofPatch name rationale patch).Blind context ok query := by
  obtain ⟨template, quiet, h⟩ := h
  refine ⟨template, !quiet, fun content hcontent => ?_⟩
  obtain ⟨hafter, hquiet⟩ := h content hcontent
  simp only [Pass.ofPatch, Outcome.ofChanges, Outcome.fired, String.toList_ofList, hafter, hquiet]
  cases quiet <;> simp

end OpalRepair
