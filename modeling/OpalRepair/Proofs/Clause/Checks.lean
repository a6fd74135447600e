import Mathlib
import OpalRepair.Proofs.Clause.Basic
import OpalRepair.Proofs.Compose
import OpalRepair.Proofs.Content

/-!
# What the checks see in a clause

The verb a clause starts with, the words it calls and its parentheses.
-/

namespace OpalRepair

open Query Text Vocabulary

/-! ## Verbs -/

namespace Clause

theorem text_eq_verb (clause : Clause) :
    clause.text = clause.verb.toList ++ ' ' :: clause.arguments.flatMap Part.text := by
  simp [text, parts, Part.text]

theorem leadingName?_text (clause : Clause) : leadingName? clause.text = some clause.verb.toList := by
  have hverb := clause.verb_mem
  rw [text_eq_verb]
  generalize clause.verb = verb at hverb
  simp only [verbsUsed, List.mem_cons, List.not_mem_nil, or_false] at hverb
  rcases hverb with rfl | rfl | rfl | rfl | rfl | rfl <;> rfl

theorem verb?_row (clause : Clause) (gap : List Cell) :
    Stage.verb? ⟨clause.row, gap⟩ = some clause.verb := by
  rw [Stage.verb?, Stage.text, clause.text_row, leadingName?_text, Option.map_some,
    String.ofList_toList]

theorem startsWithVerb (clause : Clause) : StartsWithVerb clause.row := by
  refine ⟨clause.verb.toList, ?_, ?_⟩
  · rw [clause.text_row, leadingName?_text]
    rfl
  · have hverbs : ∀ verb ∈ verbsUsed, verbs.contains verb = true := by decide
    rw [String.ofList_toList]
    exact hverbs clause.verb clause.verb_mem

end Clause

/-! ## Calls -/

def Clean.calls : Clean → List String
  | .equals .. | .exceeds .. | .reads .. | .limits _ => []
  | .counts .. => ["count", "group_by"]
  | .descends _ => ["desc"]
  | .measures _ => ["strlen"]

def Mistake.calls : Mistake → List String
  | .minus _ | .search .. | .dottedKey _ | .recent => []
  | .countIf _ => ["count_if"]
  | .metric => ["m"]

def Mended.calls : Mended → List String
  | .anyTerm .. => ["filter", "contains"]
  | .quotedKey _ => []
  | .flags _ => ["if"]
  | .measuresAndFlags .. => ["strlen", "if"]
  | .sumsFlags _ => ["sum"]
  | .aligns => ["avg", "m"]

def Clause.calls : Clause → List String
  | .clean shape => shape.calls
  | .mistake shape => shape.calls
  | .mended shape => shape.calls

namespace Query.Word

variable {known known' : List Char → Prop}

instance [DecidablePred known] (word : Word) (cell : Cell) : Decidable (word.Admits known cell) :=
  inferInstanceAs (Decidable (cell.char = '(' → ∀ run ∈ word.pending?, known run))

instance decidableSound [DecidablePred known] (word : Word) : (row : List Cell) →
    Decidable (word.Sound known row)
  | [] => .isTrue trivial
  | cell :: row =>
    have := decidableSound (word.step cell) row
    inferInstanceAs (Decidable (word.Admits known cell ∧ (word.step cell).Sound known row))

theorem Sound.mono (h : ∀ run, known run → known' run) {word : Word} {row : List Cell}
    (hrow : word.Sound known row) : word.Sound known' row := by
  induction row generalizing word with
  | nil => trivial
  | cons cell row ih =>
      obtain ⟨hfirst, hrest⟩ := hrow
      exact ⟨fun hparen run hrun => h run (hfirst hparen run hrun), ih hrest⟩

end Query.Word

namespace Clause

def Tame (known : List Char → Prop) (part : Part) : Prop :=
  ∀ word : Word, word.Sound known part.row

section Tame

variable {known : List Char → Prop}

theorem tame_lexeme {first more : Char → Bool} [Lexeme.Named first more]
    (lexeme : Lexeme first more) : Tame known (.code lexeme.text) := by
  refine fun word => Word.sound_of_no_paren word fun cell hcell => ?_
  obtain ⟨c, hc, rfl⟩ := List.mem_map.mp hcell
  rintro rfl
  exact absurd (Lexeme.Named.name lexeme _ hc) (by decide)

theorem tame_string (content : List Char) : Tame known (.string content) :=
  fun word => word.sound_literalRow .double content

theorem tame_of_no_paren {text : List Char} (h : '(' ∉ text) : Tame known (.code text) := by
  refine fun word => Word.sound_of_no_paren word fun cell hcell => ?_
  obtain ⟨c, hc, rfl⟩ := List.mem_map.mp hcell
  rintro rfl
  exact h hc

theorem tame_of_ends {text : List Char}
    (hhead : (text.head?.any fun c => !isWordChar c && !isBlank c && c != '.' && c != '(') = true)
    (h : Word.idle.Sound known (codeRow text)) : Tame known (.code text) := by
  intro word
  cases text with
  | nil => trivial
  | cons c text =>
      simp only [List.head?_cons, Option.any_some, Bool.and_eq_true, Bool.not_eq_true', bne_iff_ne]
        at hhead
      obtain ⟨⟨⟨hword, hblank⟩, hdot⟩, hparen⟩ := hhead
      have hstep (word : Word) : word.step ⟨c, .code⟩ = .idle :=
        word.step_ends ⟨hword, hblank, hdot⟩
      refine ⟨fun hc => absurd hc hparen, ?_⟩
      rw [hstep, ← hstep .idle]
      exact h.2

theorem sound_parts {word : Word} {first : Part} {rest : List Part}
    (hfirst : word.Sound known first.row) (hrest : ∀ part ∈ rest, Tame known part) :
    word.Sound known ((first :: rest).flatMap Part.row) := by
  have hparts (word : Word) : word.Sound known (rest.flatMap Part.row) := by
    induction rest generalizing word with
    | nil => trivial
    | cons part rest ih =>
        rw [List.flatMap_cons, Word.sound_append]
        exact ⟨hrest part (by simp) word, ih (fun p hp => hrest p (by simp [hp])) _⟩
  rw [List.flatMap_cons, Word.sound_append]
  exact ⟨hfirst, hparts _⟩

end Tame

theorem after_verb (clause : Clause) :
    Word.idle.after (codeRow (clause.verb.toList ++ [' '])) = .spaced clause.verb.toList := by
  have hverbs : ∀ verb ∈ verbsUsed,
      Word.idle.after (codeRow (verb.toList ++ [' '])) = .spaced verb.toList := by decide
  exact hverbs clause.verb clause.verb_mem

theorem sound_verb {known : List Char → Prop} (clause : Clause) :
    Word.idle.Sound known (codeRow (clause.verb.toList ++ [' '])) := by
  have hverbs : ∀ verb ∈ verbsUsed, '(' ∉ verb.toList ++ [' '] := by decide
  exact tame_of_no_paren (hverbs clause.verb clause.verb_mem) .idle

theorem sound_arguments (clause : Clause) : (Word.spaced clause.verb.toList).Sound
    (fun run => String.ofList run ∈ clause.calls) (clause.arguments.flatMap Part.row) := by
  rcases clause with shape | shape | shape <;> cases shape <;>
    dsimp only [calls, Clean.calls, Mistake.calls, Mended.calls, verb, Clean.verb, Mistake.verb,
      Mended.verb, arguments, Clean.arguments, Mistake.arguments, Mended.arguments] <;>
    refine sound_parts (by first | exact tame_lexeme _ _ | decide) ?_ <;>
    simp only [List.forall_mem_cons, List.not_mem_nil, false_imp_iff, implies_true, and_true] <;>
    and_intros <;>
    first
    | exact tame_lexeme _
    | exact tame_string _
    | exact tame_of_no_paren (by decide)
    | exact tame_of_ends (by decide) (by decide)

theorem sound_row (clause : Clause) :
    Word.idle.Sound (fun run => String.ofList run ∈ clause.calls) clause.row := by
  rw [row, parts, List.flatMap_cons, Part.row, Word.sound_append, after_verb]
  exact ⟨sound_verb clause, sound_arguments clause⟩

end Clause

/-! ## Brackets -/

namespace Query

def brackets (row : List Cell) : List Cell := row.filter fun cell => cell.opens || cell.closes

theorem brackets_append (a b : List Cell) : brackets (a ++ b) = brackets a ++ brackets b :=
  List.filter_append a b

theorem brackets_cons (cell : Cell) (row : List Cell) :
    brackets (cell :: row) =
      if cell.opens || cell.closes then cell :: brackets row else brackets row :=
  List.filter_cons

theorem nesting_brackets (depth : Nat) (row : List Cell) :
    depthAfter depth (brackets row) = depthAfter depth row ∧
      nestingFrom depth (brackets row) = nestingFrom depth row := by
  induction row generalizing depth with
  | nil => exact ⟨rfl, rfl⟩
  | cons cell row ih =>
      by_cases hcell : (cell.opens || cell.closes) = true
      · obtain ⟨hafter, hnesting⟩ := ih (depthBehind depth cell)
        rw [brackets_cons, if_pos hcell, depthAfter_cons, depthAfter_cons, nestingFrom_cons,
          nestingFrom_cons, hafter, hnesting]
        exact ⟨rfl, rfl⟩
      · have hflat : cell.opens = false ∧ cell.closes = false := by simpa using hcell
        have hbehind : depthBehind depth cell = depth := by simp [depthBehind, hflat]
        obtain ⟨hafter, hnesting⟩ := ih depth
        rw [brackets_cons, if_neg hcell, depthAfter_cons, nestingFrom_cons, hbehind,
          hafter, hnesting, Nat.max_eq_right (le_nestingFrom depth row)]
        exact ⟨rfl, rfl⟩

theorem countP_brackets (pair : Pair) (row : List Cell) :
    (brackets row).countP (Cell.isCode pair.left) = row.countP (Cell.isCode pair.left) ∧
      (brackets row).countP (Cell.isCode pair.right) = row.countP (Cell.isCode pair.right) := by
  have hmem : pair ∈ Pair.all := by cases pair <;> simp [Pair.all]
  rw [brackets, List.countP_filter, List.countP_filter]
  constructor <;> refine List.countP_congr fun cell _ => ?_
  · have hopens : cell.isCode pair.left = true → cell.opens = true :=
      fun h => List.any_eq_true.mpr ⟨pair, hmem, h⟩
    simp
    tauto
  · have hcloses : cell.isCode pair.right = true → cell.closes = true :=
      fun h => List.any_eq_true.mpr ⟨pair, hmem, h⟩
    simp
    tauto

end Query

def Clean.bracketText : Clean → String
  | .equals .. | .exceeds .. | .reads .. | .limits _ => ""
  | .counts .. => "()()"
  | .descends _ | .measures _ => "()"

def Mistake.bracketText : Mistake → String
  | .minus _ | .search .. | .dottedKey _ | .recent => ""
  | .countIf _ | .metric => "()"

def Mended.bracketText : Mended → String
  | .anyTerm .. => "(()())"
  | .quotedKey _ => ""
  | .flags _ | .sumsFlags _ => "()"
  | .measuresAndFlags .. => "()()"
  | .aligns => "(())"

namespace Clause

def bracketText : Clause → String
  | .clean shape => shape.bracketText
  | .mistake shape => shape.bracketText
  | .mended shape => shape.bracketText

theorem brackets_lexeme {first more : Char → Bool} [Lexeme.Named first more]
    (lexeme : Lexeme first more) : brackets (codeRow lexeme.text) = [] := by
  refine List.filter_eq_nil_iff.mpr fun cell hcell => ?_
  obtain ⟨c, hc, rfl⟩ := List.mem_map.mp hcell
  have hname := Lexeme.Named.name lexeme c hc
  have hne (d : Char) (hd : isNameChar d = false) : c ≠ d := by
    rintro rfl
    simp [hname] at hd
  have hside (pair : Pair) : c ≠ pair.left ∧ c ≠ pair.right := by
    cases pair <;> exact ⟨hne _ rfl, hne _ rfl⟩
  simp [Cell.opens, Cell.closes, Cell.isCode, Pair.all, hside]

theorem brackets_literalRow (kind : Literal) (content : List Char) :
    brackets (literalRow kind content) = [] := by
  refine List.filter_eq_nil_iff.mpr fun cell hcell => ?_
  have hcode := not_isCode_of_isLiteral (isLiteral_literalRow hcell)
  simp [Cell.opens, Cell.closes, hcode]

theorem brackets_row (clause : Clause) : brackets clause.row = codeRow clause.bracketText.toList := by
  have hverbs : ∀ verb ∈ verbsUsed, brackets (codeRow (verb.toList ++ [' '])) = [] := by
    decide
  rw [row, parts, List.flatMap_cons, Part.row, brackets_append,
    hverbs clause.verb clause.verb_mem, List.nil_append]
  rcases clause with shape | shape | shape <;> cases shape <;>
    simp only [bracketText, Clean.bracketText, Mistake.bracketText, Mended.bracketText, arguments,
      Clean.arguments, Mistake.arguments, Mended.arguments, List.flatMap_cons,
      List.flatMap_nil, Part.row, brackets_append, brackets_lexeme, brackets_literalRow,
      List.nil_append, List.append_nil] <;>
    decide

theorem bracketText_mem (clause : Clause) :
    clause.bracketText ∈ ["", "()", "()()", "(()())", "(())"] := by
  rcases clause with shape | shape | shape <;> cases shape <;>
    simp [bracketText, Clean.bracketText, Mistake.bracketText, Mended.bracketText]

theorem nesting_row (clause : Clause) :
    depthAfter 0 clause.row = 0 ∧ nestingDepth clause.row ≤ 2 := by
  have hall : ∀ text ∈ ["", "()", "()()", "(()())", "(())"],
      depthAfter 0 (codeRow text.toList) = 0 ∧ nestingFrom 0 (codeRow text.toList) ≤ 2 := by
    decide
  obtain ⟨hafter, hnesting⟩ := nesting_brackets 0 clause.row
  rw [nestingDepth, ← hafter, ← hnesting, brackets_row]
  exact hall _ clause.bracketText_mem

theorem paired_row (clause : Clause) (pair : Pair) :
    clause.row.countP (Cell.isCode pair.left) = clause.row.countP (Cell.isCode pair.right) := by
  have hall : ∀ text ∈ ["", "()", "()()", "(()())", "(())"],
      (codeRow text.toList).countP (Cell.isCode pair.left) =
        (codeRow text.toList).countP (Cell.isCode pair.right) := by
    cases pair <;> decide
  obtain ⟨hleft, hright⟩ := countP_brackets pair clause.row
  rw [← hleft, ← hright, brackets_row]
  exact hall _ clause.bracketText_mem

/-! ## All checks -/

def Callable (clause : Clause) : Prop := ∀ name ∈ clause.calls, isCallable name = true

theorem calls_row {clause : Clause} (h : clause.Callable) :
    Word.idle.Sound Query.Callable clause.row :=
  clause.sound_row.mono fun _ hrun => h _ hrun

theorem paired_renderRow (clauses : List Clause) (pair : Pair) :
    (renderRow clauses).countP (Cell.isCode pair.left) =
      (renderRow clauses).countP (Cell.isCode pair.right) := by
  induction clauses with
  | nil => rfl
  | cons clause clauses ih =>
      cases clauses with
      | nil => rw [renderRow_singleton, paired_row]
      | cons next clauses =>
          have hgap : gapRow.countP (Cell.isCode pair.left) =
              gapRow.countP (Cell.isCode pair.right) := by
            cases pair <;> rfl
          simp only [renderRow_cons_cons, List.countP_append, paired_row, hgap, ih]

theorem nestingDepth_renderRow (clauses : List Clause) : nestingDepth (renderRow clauses) ≤ 2 := by
  induction clauses with
  | nil => decide
  | cons clause clauses ih =>
      obtain ⟨hafter, hnesting⟩ := clause.nesting_row
      cases clauses with
      | nil => rwa [renderRow_singleton]
      | cons next clauses =>
          rw [renderRow_cons_cons, nestingDepth_join hafter]
          omega

theorem calls_renderRow {clauses : List Clause} (h : ∀ clause ∈ clauses, clause.Callable) :
    Word.idle.Sound Query.Callable (renderRow clauses) := by
  induction clauses with
  | nil => trivial
  | cons clause clauses ih =>
      have hclause := calls_row (h clause (by simp))
      cases clauses with
      | nil => rwa [renderRow_singleton]
      | cons next clauses =>
          rw [renderRow_cons_cons, Word.sound_join]
          exact ⟨hclause, ih fun c hc => h c (by simp [hc])⟩

theorem accepted_render {settings : Settings} {clauses : List Clause}
    (hcalls : ∀ clause ∈ clauses, clause.Callable) (hstages : clauses.length ≤ settings.maxStages)
    (hnesting : 2 ≤ settings.maxNestingDepth) : Accepted settings (render clauses) := by
  have hbodies : (layout (render clauses)).stages.map Stage.body = clauses.map row := by
    rw [layout_render, map_body_stages]
  refine ⟨mode_render clauses, ?_, ?_, ?_, ?_, ?_⟩
  · rw [cells_render]
    exact paired_renderRow clauses
  · rwa [hbodies, List.length_map]
  · rw [cells_render]
    exact (nestingDepth_renderRow clauses).trans hnesting
  · rw [hbodies]
    intro body hbody
    obtain ⟨clause, -, rfl⟩ := List.mem_map.mp hbody
    exact clause.startsWithVerb
  · rw [cells_render]
    exact calls_renderRow hcalls

end Clause

end OpalRepair
