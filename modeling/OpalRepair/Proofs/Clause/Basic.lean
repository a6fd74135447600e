import Mathlib
import OpalRepair.Proofs.Characters
import OpalRepair.Proofs.Join

/-!
# Clauses

The stages that authors write most: the clean ones, those with a mistake that is known how to mend,
and what the mending makes of them.
-/

namespace OpalRepair

open Query Text

/-! ## Words -/

structure Lexeme (first more : Char → Bool) where
  head : Char
  tail : List Char
  head_mem : first head = true
  tail_mem : ∀ c ∈ tail, more c = true

def Lexeme.text {first more : Char → Bool} (lexeme : Lexeme first more) : List Char :=
  lexeme.head :: lexeme.tail

/-- The name of a column: `[a-z][a-z0-9_]*`. -/
abbrev FieldName := Lexeme Char.isLower fun c => c.isLower || c.isDigit || c == '_'

abbrev Numeral := Lexeme Char.isDigit Char.isDigit

/-- What an aggregate is called: any run of letters, digits and underscores. -/
abbrev Label := Lexeme isNameChar isNameChar

abbrev Term := Lexeme Char.isLower Char.isLower

structure Phrase where
  text : List Char
  mem : ∀ c ∈ text, (c.isLower || c == ' ') = true

/-! ## Shapes -/

inductive Clean where
  | equals (field : FieldName) (number : Numeral)
  | exceeds (field : FieldName) (number : Numeral)
  | reads (field : FieldName) (phrase : Phrase)
  | counts (label : Label) (field : FieldName)
  | descends (field : FieldName)
  | limits (number : Numeral)
  | measures (field : FieldName)

inductive Mistake where
  | minus (field : FieldName)
  | search (first second : Term)
  | dottedKey (phrase : Phrase)
  | countIf (field : FieldName)
  | recent
  | metric

inductive Mended where
  | anyTerm (first second : Term)
  | quotedKey (phrase : Phrase)
  | flags (field : FieldName)
  | measuresAndFlags (measured field : FieldName)
  | sumsFlags (field : FieldName)
  | aligns

inductive Clause where
  | clean (shape : Clean)
  | mistake (shape : Mistake)
  | mended (shape : Mended)

/-- A part of a clause: code, or a string in double quotes. -/
inductive Part where
  | code (text : List Char)
  | string (content : List Char)

namespace Part

def text : Part → List Char
  | .code text => text
  | .string content => '"' :: (content ++ ['"'])

def row : Part → List Cell
  | .code text => codeRow text
  | .string content => literalRow .double content

/-- Code without a character that the scanner heeds; strings without one that ends them. -/
def Plain : Part → Prop
  | .code text => ∀ c ∈ text, Query.Plain c ∧ c ≠ '|'
  | .string content => '\\' ∉ content ∧ '"' ∉ content

instance : DecidablePred Plain := fun part =>
  match part with
  | .code text =>
    List.decidableBAll (fun c => (c ≠ '"' ∧ c ≠ '\'' ∧ c ≠ '/' ∧ c ≠ '\\') ∧ c ≠ '|') text
  | .string content => inferInstanceAs (Decidable ('\\' ∉ content ∧ '"' ∉ content))

@[simp] theorem text_row (part : Part) : Query.text part.row = part.text := by
  cases part <;> simp [row, text, Literal.delimiter]

end Part

def Clean.verb : Clean → String
  | .equals .. | .exceeds .. | .reads .. => "filter"
  | .counts .. => "statsby"
  | .descends _ => "sort"
  | .limits _ => "limit"
  | .measures _ => "make_col"

def Clean.arguments : Clean → List Part
  | .equals field number => [.code field.text, .code " = ".toList, .code number.text]
  | .exceeds field number => [.code field.text, .code " > ".toList, .code number.text]
  | .reads field phrase => [.code field.text, .code " = ".toList, .string phrase.text]
  | .counts label field =>
    [.code label.text, .code ":count(), group_by(".toList, .code field.text, .code ")".toList]
  | .descends field => [.code "desc(".toList, .code field.text, .code ")".toList]
  | .limits number => [.code number.text]
  | .measures field => [.code field.text, .code ":strlen(name)".toList]

def Mistake.verb : Mistake → String
  | .minus _ => "sort"
  | .search .. | .dottedKey _ | .recent | .metric => "filter"
  | .countIf _ => "statsby"

def Mistake.arguments : Mistake → List Part
  | .minus field => [.code "-".toList, .code field.text]
  | .search first second =>
    [.code "body ~ <".toList, .code first.text, .code " ".toList, .code second.text,
      .code ">".toList]
  | .dottedKey phrase =>
    [.code "resource_attributes.k8s.pod.name = ".toList, .string phrase.text]
  | .countIf field => [.code field.text, .code ":count_if(code >= 500)".toList]
  | .recent => [.code "timestamp > @".toList, .string "1 hour ago".toList]
  | .metric => [.code "m(".toList, .string "cpu".toList, .code ") > 80".toList]

def Mended.verb : Mended → String
  | .anyTerm .. | .quotedKey _ => "filter"
  | .flags _ | .measuresAndFlags .. => "make_col"
  | .sumsFlags _ => "statsby"
  | .aligns => "align"

def Mended.arguments : Mended → List Part
  | .anyTerm first second =>
    [.code "(contains(body, ".toList, .string first.text, .code ") or contains(body, ".toList,
      .string second.text, .code "))".toList]
  | .quotedKey phrase =>
    [.code "resource_attributes.".toList, .string "k8s.pod.name".toList, .code " = ".toList,
      .string phrase.text]
  | .flags field =>
    [.code field.text, .code "_flag".toList, .code ":if(code >= 500, 1, 0)".toList]
  | .measuresAndFlags measured field =>
    [.code measured.text, .code ":strlen(name), ".toList, .code field.text, .code "_flag".toList,
      .code ":if(code >= 500, 1, 0)".toList]
  | .sumsFlags field =>
    [.code field.text, .code ":sum(".toList, .code field.text, .code "_flag)".toList]
  | .aligns => [.code "cpu:avg(m(".toList, .string "cpu".toList, .code "))".toList]

namespace Clause

def verb : Clause → String
  | .clean shape => shape.verb
  | .mistake shape => shape.verb
  | .mended shape => shape.verb

def arguments : Clause → List Part
  | .clean shape => shape.arguments
  | .mistake shape => shape.arguments
  | .mended shape => shape.arguments

def parts (clause : Clause) : List Part :=
  .code (clause.verb.toList ++ [' ']) :: clause.arguments

def verbsUsed : List String := ["filter", "statsby", "sort", "limit", "make_col", "align"]

theorem verb_mem (clause : Clause) : clause.verb ∈ verbsUsed := by
  rcases clause with shape | shape | shape <;> cases shape <;>
    simp [verb, Clean.verb, Mistake.verb, Mended.verb, verbsUsed]

def text (clause : Clause) : List Char := clause.parts.flatMap Part.text

def row (clause : Clause) : List Cell := clause.parts.flatMap Part.row

def render (clauses : List Clause) : List Char :=
  List.intercalate " | ".toList (clauses.map text)

def renderRow (clauses : List Clause) : List Cell :=
  List.intercalate gapRow (clauses.map row)

end Clause

/-! ## Characters -/

theorem Lexeme.forall_mem {first more : Char → Bool} {p : Char → Prop}
    (hfirst : ∀ c, first c = true → p c) (hmore : ∀ c, more c = true → p c)
    (lexeme : Lexeme first more) : ∀ c ∈ lexeme.text, p c := by
  intro c hc
  rcases List.mem_cons.mp hc with rfl | hc
  · exact hfirst _ lexeme.head_mem
  · exact hmore c (lexeme.tail_mem c hc)

theorem isNameChar_of_isLower {c : Char} (h : c.isLower = true) : isNameChar c = true := by
  simp [isNameChar, Char.isAlphanum, Char.isAlpha, h]

theorem isNameChar_of_isDigit {c : Char} (h : c.isDigit = true) : isNameChar c = true := by
  simp [isNameChar, Char.isAlphanum, h]

class Lexeme.Named (first more : Char → Bool) : Prop where
  name : ∀ lexeme : Lexeme first more, ∀ c ∈ lexeme.text, isNameChar c = true

instance : Lexeme.Named Char.isLower fun c => c.isLower || c.isDigit || c == '_' := by
  refine ⟨Lexeme.forall_mem (fun _ => isNameChar_of_isLower) fun c hc => ?_⟩
  simp only [Bool.or_eq_true, beq_iff_eq] at hc
  rcases hc with (hc | hc) | rfl
  · exact isNameChar_of_isLower hc
  · exact isNameChar_of_isDigit hc
  · decide

instance : Lexeme.Named Char.isDigit Char.isDigit :=
  ⟨Lexeme.forall_mem (fun _ => isNameChar_of_isDigit) fun _ => isNameChar_of_isDigit⟩

instance : Lexeme.Named isNameChar isNameChar :=
  ⟨Lexeme.forall_mem (fun _ h => h) fun _ h => h⟩

instance : Lexeme.Named Char.isLower Char.isLower :=
  ⟨Lexeme.forall_mem (fun _ => isNameChar_of_isLower) fun _ => isNameChar_of_isLower⟩

theorem Lexeme.plain {first more : Char → Bool} [Named first more] (lexeme : Lexeme first more) :
    (Part.code lexeme.text).Plain := by
  intro c hc
  have hname := (isNameChar_iff c).mp (Named.name lexeme c hc)
  have hne (d : Char) (hd : isNameChar d = false) : c ≠ d := by
    rintro rfl
    simp [Named.name lexeme c hc] at hd
  exact ⟨⟨hne _ rfl, hne _ rfl, hne _ rfl, hne _ rfl⟩, hne _ rfl⟩

theorem Phrase.plain (phrase : Phrase) : (Part.string phrase.text).Plain := by
  constructor <;> intro h <;> exact absurd (phrase.mem _ h) (by decide)

theorem Lexeme.string_plain (term : Term) : (Part.string term.text).Plain := by
  constructor <;> intro h <;>
    exact absurd (Named.name term _ h) (by decide)

theorem Clause.plain (clause : Clause) : ∀ part ∈ clause.parts, part.Plain := by
  rcases clause with shape | shape | shape <;> cases shape <;>
    simp only [parts, verb, Clean.verb, Mistake.verb, Mended.verb, arguments, Clean.arguments,
      Mistake.arguments, Mended.arguments, List.forall_mem_cons,
      List.not_mem_nil, false_imp_iff, implies_true, and_true, Lexeme.plain, Phrase.plain,
      Lexeme.string_plain, true_and] <;>
    decide

/-! ## Scanning -/

namespace Part

theorem consumes {part : Part} (h : part.Plain) (last : Option Char) :
    ∃ last', (Scanner.atCode last).Consumes part.text part.row (Scanner.atCode last') := by
  cases part with
  | code text => exact ⟨_, Scanner.reads_code last h⟩
  | string content =>
      refine ⟨some '"', fun rest => ?_⟩
      have hread := @Scanner.read_literal .double last rfl content h.1 h.2 rest
      rw [text, List.cons_append, List.append_assoc]
      exact hread

theorem consumes_all {parts : List Part} (h : ∀ part ∈ parts, part.Plain) (last : Option Char) :
    ∃ last', (Scanner.atCode last).Consumes (parts.flatMap text) (parts.flatMap row)
      (Scanner.atCode last') := by
  induction parts generalizing last with
  | nil => exact ⟨last, .nil _⟩
  | cons part parts ih =>
      obtain ⟨middle, hpart⟩ := consumes (h part (by simp)) last
      obtain ⟨last', hparts⟩ := ih (fun p hp => h p (by simp [hp])) middle
      exact ⟨last', hpart.append hparts⟩

theorem isSeparator_row (part : Part) : ∀ cell ∈ part.row, cell.isSeparator = false := by
  intro cell hcell
  cases part with
  | code text =>
      obtain ⟨c, -, rfl⟩ := List.mem_map.mp hcell
      rfl
  | string content =>
      simp only [row, literalRow, contentRow, List.mem_cons, List.mem_append, List.mem_map,
        List.not_mem_nil, or_false] at hcell
      rcases hcell with rfl | ⟨c, -, rfl⟩ | rfl <;> rfl

end Part

namespace Clause

@[simp] theorem text_row (clause : Clause) : Query.text clause.row = clause.text := by
  rw [row, text, Query.text, List.map_flatMap]
  exact List.flatMap_congr fun part _ => part.text_row

theorem consumes (clause : Clause) (last : Option Char) :
    ∃ last', (Scanner.atCode last).Consumes clause.text clause.row (Scanner.atCode last') :=
  Part.consumes_all clause.plain last

theorem isSeparator_row (clause : Clause) : ∀ cell ∈ clause.row, cell.isSeparator = false := by
  intro cell hcell
  obtain ⟨part, -, hpart⟩ := List.mem_flatMap.mp hcell
  exact part.isSeparator_row cell hpart

@[simp] theorem render_singleton (clause : Clause) : render [clause] = clause.text := by
  simp [render, List.intercalate]

@[simp] theorem renderRow_singleton (clause : Clause) : renderRow [clause] = clause.row := by
  simp [renderRow, List.intercalate]

theorem render_cons_cons (clause next : Clause) (clauses : List Clause) :
    render (clause :: next :: clauses) = clause.text ++ " | ".toList ++ render (next :: clauses) := by
  simp only [render, List.intercalate, List.map_cons, List.intersperse_cons_cons, List.flatten_cons,
    List.append_assoc]

theorem renderRow_cons_cons (clause next : Clause) (clauses : List Clause) :
    renderRow (clause :: next :: clauses) = clause.row ++ gapRow ++ renderRow (next :: clauses) := by
  simp only [renderRow, List.intercalate, List.map_cons, List.intersperse_cons_cons,
    List.flatten_cons, List.append_assoc]

theorem consumes_gap (last : Option Char) :
    (Scanner.atCode last).Consumes " | ".toList gapRow (Scanner.atCode (some '|')) := by
  have hspace (last : Option Char) :
      (Scanner.atCode last).Consumes [' '] [⟨' ', .code⟩] (Scanner.atCode last) :=
    Scanner.reads_code last (show (Part.code [' ']).Plain by decide)
  exact ((hspace last).append (Scanner.reads_separator last)).append (hspace _)

theorem consumes_render (clauses : List Clause) (last : Option Char) :
    ∃ last', (Scanner.atCode last).Consumes (render clauses) (renderRow clauses)
      (Scanner.atCode last') := by
  induction clauses generalizing last with
  | nil => exact ⟨last, .nil _⟩
  | cons clause clauses ih =>
      obtain ⟨middle, hclause⟩ := clause.consumes last
      cases clauses with
      | nil => exact ⟨middle, by rwa [render_singleton, renderRow_singleton]⟩
      | cons next clauses =>
          obtain ⟨last', hrest⟩ := ih (some '|')
          rw [render_cons_cons, renderRow_cons_cons]
          exact ⟨last', (hclause.append (consumes_gap middle)).append hrest⟩

theorem cells_render (clauses : List Clause) : cells (render clauses) = renderRow clauses := by
  obtain ⟨last, hread⟩ := consumes_render clauses none
  have hpaint := (hread []).1
  rwa [List.append_nil, Scanner.paint, List.append_nil] at hpaint

theorem mode_render (clauses : List Clause) : (scan (render clauses)).final.mode = .code := by
  obtain ⟨last, hread⟩ := consumes_render clauses none
  have hfinish := (hread []).2
  rw [List.append_nil] at hfinish
  exact congrArg Scanner.mode hfinish

end Clause

/-! ## Layout -/

/-- The stages of a rendered list: one a clause, with a pipe behind all but the last. -/
def Clause.stages : List Clause → List Stage
  | [] => []
  | [clause] => [⟨clause.row, []⟩]
  | clause :: next :: clauses => ⟨clause.row, gapRow⟩ :: stages (next :: clauses)

def EndsDark (text : List Char) : Prop := ∃ c ∈ text.getLast?, isBlank c = false

theorem EndsDark.append (front : List Char) {back : List Char} (h : EndsDark back) :
    EndsDark (front ++ back) := by
  obtain ⟨c, hc, hblank⟩ := h
  have hne : back ≠ [] := by rintro rfl; simp at hc
  exact ⟨c, by rwa [List.getLast?_append_of_ne_nil _ hne], hblank⟩

theorem Lexeme.endsDark {first more : Char → Bool} [Named first more] (lexeme : Lexeme first more) :
    EndsDark lexeme.text := by
  have hne : lexeme.text ≠ [] := List.cons_ne_nil _ _
  refine ⟨lexeme.text.getLast hne, List.getLast?_eq_some_getLast hne, ?_⟩
  exact isBlank_of_isNameChar (Named.name lexeme _ (List.getLast_mem hne))

theorem Lexeme.isBlank_head {first more : Char → Bool} [Named first more]
    (lexeme : Lexeme first more) : isBlank lexeme.head = false :=
  isBlank_of_isNameChar (Named.name lexeme lexeme.head (by simp [Lexeme.text]))

theorem Lexeme.trimStart_append {first more : Char → Bool} [Named first more]
    (lexeme : Lexeme first more) (rest : List Char) :
    trimStart (lexeme.text ++ rest) = lexeme.text ++ rest := by
  rw [trimStart, Lexeme.text, List.cons_append,
    List.dropWhile_cons_of_neg (by simp [lexeme.isBlank_head])]

theorem Part.endsDark_string (content : List Char) : EndsDark (Part.string content).text :=
  EndsDark.append ('"' :: content) ⟨'"', rfl, rfl⟩

theorem Part.endsDark {parts : List Part} (h : ∃ last ∈ parts.getLast?, EndsDark last.text) :
    EndsDark (parts.flatMap text) := by
  obtain ⟨last, hlast, hdark⟩ := h
  obtain ⟨front, rfl⟩ := List.getLast?_eq_some_iff.mp hlast
  rw [List.flatMap_append, List.flatMap_singleton]
  exact hdark.append _

namespace Clause

theorem ends (clause : Clause) :
    (∃ c ∈ clause.text.head?, isBlank c = false) ∧ EndsDark clause.text := by
  refine ⟨?_, Part.endsDark ?_⟩
  · have hverbs : ∀ verb ∈ verbsUsed, ∃ c ∈ verb.toList.head?, isBlank c = false := by
      simp [verbsUsed]
      decide
    obtain ⟨c, hc, hblank⟩ := hverbs clause.verb clause.verb_mem
    refine ⟨c, ?_, hblank⟩
    simp [text, parts, Part.text, Option.mem_def.mp hc]
  · rcases clause with shape | shape | shape <;> cases shape <;>
      first
      | exact ⟨_, rfl, Lexeme.endsDark _⟩
      | exact ⟨_, rfl, Part.endsDark_string _⟩
      | exact ⟨_, rfl, _, rfl, by decide⟩

theorem row_ends (clause : Clause) :
    (∃ cell ∈ clause.row.head?, isBlank cell.char = false) ∧
      ∃ cell ∈ clause.row.getLast?, isBlank cell.char = false := by
  obtain ⟨hhead, hlast⟩ := clause.ends
  rw [← clause.text_row] at hhead hlast
  simpa [EndsDark, Query.text] using And.intro hhead hlast

theorem foldr_cons_row (clause : Clause) {layout : Layout}
    (hlayout : layout.stages = [] ∨ layout.lead.any Cell.isSeparator = true) :
    clause.row.foldr Layout.cons layout = ⟨[], ⟨clause.row, layout.lead⟩ :: layout.stages⟩ := by
  obtain ⟨hhead, hlast⟩ := clause.row_ends
  have hcore := @Layout.foldr_cons_core [] clause.row [] (by simpa using clause.isSeparator_row)
    (by simp) (by simp) hhead hlast layout hlayout
  rwa [List.nil_append, List.append_nil, List.nil_append] at hcore

theorem layout_render (clauses : List Clause) : layout (render clauses) = ⟨[], stages clauses⟩ := by
  rw [layout, cells_render]
  induction clauses with
  | nil => rfl
  | cons clause clauses ih =>
      cases clauses with
      | nil =>
          rw [renderRow_singleton, Layout.ofCells, foldr_cons_row _ (.inl rfl)]
          rfl
      | cons next clauses =>
          have hgap : gapRow.foldr Layout.cons (Layout.ofCells (renderRow (next :: clauses))) =
              ⟨gapRow, stages (next :: clauses)⟩ := by
            rw [Layout.foldr_cons_blank (by decide), ih, List.append_nil]
          rw [renderRow_cons_cons, List.append_assoc, Layout.ofCells, List.foldr_append,
            List.foldr_append, ← Layout.ofCells, hgap, foldr_cons_row _ (.inr rfl)]
          rfl

theorem map_stages {α : Type} {f : Stage → α} {g : Clause → α}
    (h : ∀ clause gap, f ⟨clause.row, gap⟩ = g clause) (clauses : List Clause) :
    (stages clauses).map f = clauses.map g := by
  induction clauses with
  | nil => rfl
  | cons clause clauses ih =>
      cases clauses with
      | nil => simp [stages, h]
      | cons next clauses =>
          rw [stages, List.map_cons, ih, h]
          rfl

theorem map_body_stages (clauses : List Clause) :
    (stages clauses).map Stage.body = clauses.map row :=
  map_stages (fun _ _ => rfl) clauses

@[simp] theorem length_stages (clauses : List Clause) : (stages clauses).length = clauses.length := by
  simpa using congrArg List.length (map_body_stages clauses)

end Clause

end OpalRepair
