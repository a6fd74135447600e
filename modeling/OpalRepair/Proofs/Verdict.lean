import Mathlib
import OpalRepair.Proofs.Calls
import OpalRepair.Proofs.Join

/-!
# When a query is accepted

Each of the six checks as a property of the cells of a query and of the state in which the scanner
leaves it.
-/

namespace OpalRepair

open Query Text Vocabulary

/-! ## What a character does to the scanner -/

namespace Query.Scanner

theorem step_cases (s : Scanner) (c : Char) (rest : List Char) :
    (∃ more, s.mode = .flags more ∧ (s.step c rest).1 = .flag ∧
        (s.step c rest).2.mode = .beforeFlags more) ∨
      (s.mode = .code ∧ (s.step c rest).1.isLiteral = false ∧ (s.step c rest).2.mode = .code) ∨
      (∃ kind : Literal, s.mode = .code ∧ c = kind.delimiter ∧ (s.step c rest).1 = .opening ∧
        (s.step c rest).2.mode = .inside kind) ∨
      (∃ kind, s.mode = .inside kind ∧ (s.step c rest).1 = .content ∧
        (s.step c rest).2.mode = .inside kind) ∨
      ∃ kind : Literal, s.mode = .inside kind ∧ c = kind.delimiter ∧
        (s.step c rest).1 = .closing ∧ (s.step c rest).2.mode = kind.modeAfter rest := by
  cases hmode : s.mode with
  | flags more => exact .inl ⟨more, rfl, by simp [step, hmode]⟩
  | code =>
      right
      cases hliteral : (s.step c rest).1.isLiteral with
      | false => exact .inl ⟨rfl, rfl, mode_of_not_isLiteral hliteral⟩
      | true =>
          refine .inr (.inl ?_)
          have hescaped : s.escaped = false := by
            cases hescaped : s.escaped with
            | false => rfl
            | true => simp [step, hmode, hescaped, Role.isLiteral] at hliteral
          have hback : c ≠ '\\' := by
            intro hback
            simp only [step, hmode, hescaped, hback, if_true] at hliteral
            simp [Role.isLiteral] at hliteral
          cases hopened : Literal.openedBy? s.last c with
          | none =>
              simp only [step, hmode, hescaped, hback, hopened] at hliteral
              split_ifs at hliteral <;> simp [Role.isLiteral] at hliteral
          | some kind =>
              have hdelimiter : c = kind.delimiter := by
                unfold Literal.openedBy? at hopened
                split_ifs at hopened with hdouble hsingle hregex <;> cases hopened
                · exact hdouble
                · exact hsingle
                · exact hregex.1
              exact ⟨kind, rfl, hdelimiter, by simp [step, hmode, hescaped, hback, hopened],
                by simp [step, hmode, hescaped, hback, hopened]⟩
  | inside kind =>
      refine .inr (.inr (.inr ?_))
      by_cases hclose : s.escaped = false ∧ c ≠ '\\' ∧ c = kind.delimiter
      · obtain ⟨hescaped, hback, hdelimiter⟩ := hclose
        refine .inr ⟨kind, rfl, hdelimiter, ?_, ?_⟩ <;>
          simp [step, hmode, hescaped, hback, ← hdelimiter]
      · refine .inl ⟨kind, rfl, ?_⟩
        simp only [step, hmode]
        split_ifs with hescaped hback hdelimiter
        · exact ⟨rfl, rfl⟩
        · exact ⟨rfl, rfl⟩
        · exact absurd ⟨by simpa using hescaped, hback, hdelimiter⟩ hclose
        · exact ⟨rfl, rfl⟩

theorem beforeFlags_ne_inside (more : Nat) (kind : Literal) :
    Mode.beforeFlags more ≠ .inside kind := by
  cases more <;> simp [Mode.beforeFlags]

theorem modeAfter_ne_inside (kind kind' : Literal) (rest : List Char) :
    kind.modeAfter rest ≠ .inside kind' := by
  cases kind with
  | regex => exact beforeFlags_ne_inside _ _
  | double | single => simp [Literal.modeAfter]

theorem exists_opening {s : Scanner} {query : List Char} {kind : Literal}
    (h : (s.finish query).mode = .inside kind) :
    s.mode = .inside kind ∨ ∃ cell ∈ s.paint query, cell.role = .opening := by
  induction query generalizing s with
  | nil => exact .inl h
  | cons c rest ih =>
      rcases ih h with hmode | ⟨cell, hcell, hrole⟩
      · rcases s.step_cases c rest with ⟨more, -, -, hnext⟩ | ⟨-, -, hnext⟩ | ⟨_, -, -, hrole, -⟩ |
          ⟨_, hs, -, hnext⟩ | ⟨_, -, -, -, hnext⟩
        · exact absurd (hnext.symm.trans hmode) (beforeFlags_ne_inside _ _)
        · simp [hnext] at hmode
        · exact .inr ⟨_, List.mem_cons_self, hrole⟩
        · exact .inl (hs.trans (hnext.symm.trans hmode))
        · exact absurd (hnext.symm.trans hmode) (modeAfter_ne_inside _ _ _)
      · exact .inr ⟨cell, List.mem_cons_of_mem _ hcell, hrole⟩

def insideString (s : Scanner) : Nat := if s.mode = .inside .double then 1 else 0

theorem step_insideString (s : Scanner) (c : Char) (rest : List Char) :
    (s.insideString + if Cell.isQuote ⟨c, (s.step c rest).1⟩ then 1 else 0) % 2 =
      (s.step c rest).2.insideString := by
  rcases s.step_cases c rest with ⟨more, hs, hrole, hnext⟩ | ⟨hs, hrole, hnext⟩ |
    ⟨kind, hs, hc, hrole, hnext⟩ | ⟨kind, hs, hrole, hnext⟩ | ⟨kind, hs, hc, hrole, hnext⟩
  · simp [insideString, hs, hrole, hnext, Cell.isQuote, beforeFlags_ne_inside]
  · have hquote : Cell.isQuote ⟨c, (s.step c rest).1⟩ = false := by
      cases h : (s.step c rest).1 <;> simp [h, Role.isLiteral] at hrole <;> simp [Cell.isQuote]
    simp [insideString, hs, hnext, hquote]
  · simp only [insideString, hs, hrole, hnext]
    cases kind <;> simp [Cell.isQuote, hc, Literal.delimiter]
  · cases kind <;> simp [insideString, hs, hrole, hnext, Cell.isQuote]
  · simp only [insideString, hs, hrole, hnext, modeAfter_ne_inside, if_false]
    cases kind <;> simp [Cell.isQuote, hc, Literal.delimiter]

theorem countP_isQuote_paint (s : Scanner) (query : List Char) :
    (s.insideString + (s.paint query).countP Cell.isQuote) % 2 =
      (s.finish query).insideString := by
  induction query generalizing s with
  | nil =>
      rw [paint, finish, insideString]
      split <;> rfl
  | cons c rest ih =>
      have hstep := s.step_insideString c rest
      rw [paint, finish, ← ih, ← hstep, List.countP_cons]
      omega

theorem finish_ne_flags {s : Scanner} {query : List Char} (hs : s.FlagsAhead query)
    (more : Nat) : (s.finish query).mode ≠ .flags more := by
  induction query generalizing s with
  | nil =>
      intro hmode
      simpa using hs more hmode
  | cons c rest ih => exact ih hs.step

end Query.Scanner

/-! ## Literals and quotes -/

namespace Query

theorem exists_of_offsetsOf_eq_nil {p : Cell → Bool} {offset : Nat} {row : List Cell}
    (h : offsetsOf p offset row = []) : ∀ cell ∈ row, p cell = false := by
  induction row generalizing offset with
  | nil => simp
  | cons cell row ih =>
      rw [offsetsOf] at h
      split at h
      · simp at h
      · rename_i hcell
        simpa [hcell] using ih h

theorem openLiteral_eq_none_iff (query : List Char) :
    (scan query).openLiteral = none ↔
      ∀ kind : Literal, kind ≠ .double → (scan query).final.mode ≠ .inside kind := by
  have hopening {kind : Literal} (h : (scan query).final.mode = .inside kind) :
      offsetsOf (·.role == .opening) 0 (scan query).cells ≠ [] := by
    intro hnil
    rcases Scanner.exists_opening h with hstart | ⟨cell, hcell, hrole⟩
    · simp at hstart
    · simpa [hrole] using exists_of_offsetsOf_eq_nil hnil cell hcell
  rw [Scan.openLiteral]
  split
  · rename_i hmode
    simp [hmode, eq_comm]
  · rename_i hmode
    simp [hmode]
  · rename_i more hmode
    simp [hmode]
  · rename_i kind hmode hkind
    have hne : kind ≠ .double := by rintro rfl; exact hmode rfl
    simp only [Option.map_eq_none_iff, List.getLast?_eq_none_iff, hopening hkind, false_iff]
    exact fun h => h kind hne hkind

theorem doubleQuotes_even_iff (query : List Char) :
    (scan query).doubleQuotes % 2 = 0 ↔ (scan query).final.mode ≠ .inside .double := by
  have hparity := Scanner.countP_isQuote_paint {} query
  have hstart : Scanner.insideString {} = 0 := rfl
  rw [hstart, Nat.zero_add] at hparity
  rw [doubleQuotes_eq]
  change (Scanner.paint {} query).countP Cell.isQuote % 2 = 0 ↔
    (Scanner.finish {} query).mode ≠ .inside .double
  rw [hparity, Scanner.insideString]
  split <;> simp_all

theorem mode_of_closed {query : List Char} (hdouble : (scan query).final.mode ≠ .inside .double)
    (hclosed : ∀ kind : Literal, kind ≠ .double → (scan query).final.mode ≠ .inside kind) :
    (scan query).final.mode = .code := by
  cases hmode : (scan query).final.mode with
  | code => rfl
  | flags more =>
      have hstart : Scanner.FlagsAhead {} query := fun more h => by simp at h
      exact absurd hmode (Scanner.finish_ne_flags hstart more)
  | inside kind =>
      by_cases hkind : kind = .double
      · exact absurd (hkind ▸ hmode) hdouble
      · exact absurd hmode (hclosed kind hkind)

end Query

/-! ## The checks -/

theorem require_eq_ok {holds : Bool} {otherwise : Error} :
    require holds otherwise = .ok () ↔ holds = true := by
  cases holds <;> simp [require]

theorem refuseFirst_eq_ok {α : Type} {find? : α → Option Error} {items : List α} :
    refuseFirst find? items = .ok () ↔ ∀ item ∈ items, find? item = none := by
  rw [refuseFirst, ← List.findSome?_eq_none_iff]
  split <;> simp_all

theorem forM_eq_ok {α : Type} {run : α → Verdict} {items : List α} :
    items.forM run = .ok () ↔ ∀ item ∈ items, run item = .ok () := by
  induction items with
  | nil => simp [pure, Except.pure]
  | cons item items ih =>
      rw [List.forall_mem_cons, ← ih]
      cases hrun : run item <;> simp [List.forM, bind, Except.bind, hrun]

theorem checkStructure_eq_ok {settings : Settings} {query : String} :
    checkStructure settings query = .ok () ↔
      ∀ check ∈ checks, check.run settings (scan query.toList) = .ok () :=
  forM_eq_ok

section Checks

variable {settings : Settings} {query : List Char}

theorem balancedDelimiters_eq_ok : balancedDelimiters (scan query) = .ok () ↔
    (∀ kind : Literal, kind ≠ .double → (scan query).final.mode ≠ .inside kind) ∧
      ∀ pair : Pair, (cells query).countP (Cell.isCode pair.left) =
        (cells query).countP (Cell.isCode pair.right) := by
  have hall : (∀ pair ∈ Pair.all, Pair.imbalance? (cells query) pair = none) ↔
      ∀ pair : Pair, (cells query).countP (Cell.isCode pair.left) =
        (cells query).countP (Cell.isCode pair.right) := by
    constructor
    · intro h pair
      have hpair := h pair (by cases pair <;> simp [Pair.all])
      by_contra hne
      simp [Pair.imbalance?, hne] at hpair
    · intro h pair _
      simp [Pair.imbalance?, h pair]
  rw [← openLiteral_eq_none_iff, ← hall, balancedDelimiters]
  cases hopen : (scan query).openLiteral with
  | some found => simp
  | none => exact (iff_of_eq (by rfl)).trans (refuseFirst_eq_ok.trans (by simp [scan]))

theorem quoteParity_eq_ok :
    quoteParity (scan query) = .ok () ↔ (scan query).final.mode ≠ .inside .double := by
  rw [quoteParity, require_eq_ok, beq_iff_eq, doubleQuotes_even_iff]

theorem stageCount_eq_ok {scan : Scan} : stageCount settings scan = .ok () ↔
    (scan.layout.stages.map Stage.body).length ≤ settings.maxStages := by
  rw [stageCount, require_eq_ok, decide_eq_true_eq, List.length_map]

theorem nestingBound_eq_ok {scan : Scan} : nestingBound settings scan = .ok () ↔
    nestingDepth scan.cells ≤ settings.maxNestingDepth := by
  rw [nestingBound, require_eq_ok, decide_eq_true_eq]

def Query.StartsWithVerb (row : List Cell) : Prop :=
  ∃ name ∈ leadingName? (text row), verbs.contains (String.ofList name) = true

theorem knownVerbs_eq_ok {scan : Scan} : knownVerbs settings scan = .ok () ↔
    ∀ body ∈ scan.layout.stages.map Stage.body, StartsWithVerb body := by
  have herror (stage : Stage) (number : Nat) :
      verbError? settings stage number = none ↔ StartsWithVerb stage.body := by
    rw [verbError?, Stage.verb?, StartsWithVerb, Stage.text]
    cases leadingName? (text stage.body) <;> simp
  rw [knownVerbs, refuseFirst_eq_ok]
  simp only [List.mem_map, forall_exists_index, and_imp, forall_apply_eq_imp_iff₂, Prod.forall,
    herror]
  constructor
  · intro h stage hstage
    obtain ⟨number, hnumber, rfl⟩ := List.getElem_of_mem hstage
    exact h _ number (List.mk_mem_zipIdx_iff_getElem?.mpr (List.getElem?_eq_getElem hnumber))
  · intro h stage number hstage
    exact h stage (List.fst_mem_of_mem_zipIdx hstage)

def Query.Callable (word : List Char) : Prop := isCallable (String.ofList word) = true

theorem knownFunctions_eq_ok {scan : Scan} : knownFunctions settings scan = .ok () ↔
    Word.idle.Sound Callable scan.cells := by
  have herror (name : String) : functionError? settings name = none ↔ isCallable name = true := by
    rw [functionError?]
    split <;> simp_all
  rw [knownFunctions, refuseFirst_eq_ok]
  simp only [List.mem_map, List.mem_filterMap, forall_exists_index, and_imp, herror]
  rw [show Word.idle = Word.behind none from rfl, ← Word.callsOnly_iff 0]
  constructor
  · intro h site hsite word hword
    exact h _ word site hsite hword rfl
  · rintro h name word site hsite hword rfl
    exact h site hsite word hword

structure Accepted (settings : Settings) (query : List Char) : Prop where
  mode : (scan query).final.mode = .code
  paired : ∀ pair : Pair, (cells query).countP (Cell.isCode pair.left) =
    (cells query).countP (Cell.isCode pair.right)
  stages : ((layout query).stages.map Stage.body).length ≤ settings.maxStages
  nesting : nestingDepth (cells query) ≤ settings.maxNestingDepth
  verbs : ∀ body ∈ (layout query).stages.map Stage.body, StartsWithVerb body
  calls : Word.idle.Sound Callable (cells query)

theorem checkStructure_iff_accepted {query : String} :
    checkStructure settings query = .ok () ↔ Accepted settings query.toList := by
  rw [checkStructure_eq_ok]
  simp only [checks, List.forall_mem_cons, List.not_mem_nil, false_imp_iff, implies_true, and_true,
    balancedDelimiters_eq_ok, quoteParity_eq_ok, stageCount_eq_ok, nestingBound_eq_ok,
    knownVerbs_eq_ok, knownFunctions_eq_ok]
  constructor
  · rintro ⟨⟨hclosed, hpaired⟩, hdouble, hstages, hnesting, hverbs, hcalls⟩
    exact ⟨mode_of_closed hdouble hclosed, hpaired, hstages, hnesting, hverbs, hcalls⟩
  · rintro ⟨hmode, hpaired, hstages, hnesting, hverbs, hcalls⟩
    exact ⟨⟨fun kind _ => by simp [hmode], hpaired⟩, by simp [hmode], hstages, hnesting, hverbs,
      hcalls⟩

end Checks

end OpalRepair
