import Mathlib
import OpalRepair.Proofs.Clause.Pass
import OpalRepair.Proofs.Selection

/-!
# Fragments of clauses

A pass that looks for fragments works on each clause by itself: nothing it looks for reaches over
the pipe behind a clause.
-/

namespace OpalRepair

open Query Text AlignMetric

namespace Patch

/-! ## Walking over a row -/

variable {find? : Option Char → List Cell → Option Fragment}

def keepAll (row : List Cell) : Patch := row.map fun cell => .keep [cell.char]

@[simp] theorem after_keepAll (row : List Cell) : after (keepAll row) = text row := by
  induction row with
  | nil => rfl
  | cons cell row ih => simpa [keepAll] using ih

@[simp] theorem changes_keepAll (row : List Cell) : changes (keepAll row) = [] := by
  induction row with
  | nil => rfl
  | cons cell row ih => exact ih

/-- No fragment starts in a row that `behind` follows. -/
def Clear (find? : Option Char → List Cell → Option Fragment) (behind : List Cell) :
    Option Char → List Cell → Prop
  | _, [] => True
  | previous, cell :: row =>
    find? previous (cell :: (row ++ behind)) = none ∧ Clear find? behind (some cell.char) row

theorem getLast?_or_some (cell : Cell) (row : List Cell) (previous : Option Char) :
    (text row).getLast?.or (some cell.char) = (text (cell :: row)).getLast?.or previous :=
  (getLast?_cons_or cell.char (text row) previous).symm

theorem walk_clear {behind row : List Cell} {previous : Option Char}
    (h : Clear find? behind previous row) :
    walk find? 0 previous (row ++ behind) =
      keepAll row ++ walk find? 0 ((text row).getLast?.or previous) behind := by
  induction row generalizing previous with
  | nil => rfl
  | cons cell row ih =>
      obtain ⟨hfirst, hrest⟩ := h
      rw [List.cons_append, walk, hfirst, ← getLast?_or_some]
      exact congrArg _ (ih hrest)

theorem walk_skip (row behind : List Cell) (previous : Option Char) :
    walk find? row.length previous (row ++ behind) =
      walk find? 0 ((text row).getLast?.or previous) behind := by
  induction row generalizing previous with
  | nil => rfl
  | cons cell row ih =>
      rw [List.length_cons, List.cons_append, walk, ih]
      rw [getLast?_or_some]

theorem walk_found {previous : Option Char} {part behind : List Cell} {fragment : Fragment}
    (hfind : find? previous (part ++ behind) = some fragment)
    (hlength : part.length = fragment.more + 1) :
    walk find? 0 previous (part ++ behind) =
      fragment.piece part :: walk find? 0 (text part).getLast? behind := by
  obtain ⟨first, part, rfl⟩ := List.exists_cons_of_length_eq_add_one hlength
  have hmore : fragment.more = part.length := by simpa using hlength.symm
  have hpiece : fragment.piece (first :: (part ++ behind)) = fragment.piece (first :: part) := by
    simp [Fragment.piece, hmore]
  have hlast : (text part).getLast?.or (some first.char) = (text (first :: part)).getLast? := by
    simpa using getLast?_or_some first part none
  rw [List.cons_append] at hfind ⊢
  rw [walk, hfind]
  dsimp only
  rw [hpiece, hmore, walk_skip, hlast]

theorem walk_induction {motive : Option Char → List Cell → Patch → Prop}
    (hfits : ∀ previous row fragment, find? previous row = some fragment →
      fragment.more < row.length)
    (nil : ∀ previous, motive previous [] [])
    (pass : ∀ previous cell row, find? previous (cell :: row) = none →
      motive (some cell.char) row (walk find? 0 (some cell.char) row) →
      motive previous (cell :: row) (.keep [cell.char] :: walk find? 0 (some cell.char) row))
    (found : ∀ previous part row fragment, find? previous (part ++ row) = some fragment →
      part.length = fragment.more + 1 →
      motive (text part).getLast? row (walk find? 0 (text part).getLast? row) →
      motive previous (part ++ row)
        (fragment.piece part :: walk find? 0 (text part).getLast? row))
    (previous : Option Char) (row : List Cell) :
    motive previous row (walk find? 0 previous row) := by
  induction hsize : row.length using Nat.strong_induction_on generalizing previous row with
  | _ size ih =>
      cases row with
      | nil => exact nil previous
      | cons cell row =>
          cases hfind : find? previous (cell :: row) with
          | none =>
              rw [walk, hfind]
              exact pass previous cell row hfind (ih _ (by simp [← hsize]) _ row rfl)
          | some fragment =>
              have hmore := hfits _ _ _ hfind
              have hsplit := (List.take_append_drop (fragment.more + 1) (cell :: row)).symm
              have hlength : ((cell :: row).take (fragment.more + 1)).length =
                  fragment.more + 1 := by
                rw [List.length_take]
                omega
              generalize (cell :: row).take (fragment.more + 1) = part at hsplit hlength
              generalize (cell :: row).drop (fragment.more + 1) = rest at hsplit
              rw [hsplit] at hfind hsize ⊢
              rw [List.length_append, hlength] at hsize
              rw [walk_found hfind hlength]
              exact found _ _ _ _ hfind hlength (ih _ (by omega) _ rest rfl)

theorem walk_fragment {cell : Cell} {row behind : List Cell} {previous : Option Char}
    {replacement : List Char}
    (h : find? previous (cell :: (row ++ behind)) = some ⟨row.length, some replacement⟩) :
    walk find? 0 previous (cell :: (row ++ behind)) =
      .change (text (cell :: row)) replacement ::
        walk find? 0 (text (cell :: row)).getLast? behind := by
  rw [← List.cons_append] at h ⊢
  rw [walk_found h (by simp)]
  simp [Fragment.piece]

theorem clear_append {behind a b : List Cell} {previous : Option Char}
    (ha : Clear find? (b ++ behind) previous a)
    (hb : ∀ previous, Clear find? behind previous b) : Clear find? behind previous (a ++ b) := by
  induction a generalizing previous with
  | nil => exact hb previous
  | cons cell a ih =>
      obtain ⟨hfirst, hrest⟩ := ha
      refine ⟨?_, ih hrest⟩
      rwa [← List.append_assoc] at hfirst

theorem clear_of_read {α : Type} {read? : List Char → Option α}
    (hfind : ∀ previous row, read? (text row) = none → find? previous row = none)
    {row behind : List Cell}
    (h : ∀ n < row.length, read? ((text row).drop n ++ text behind) = none)
    (previous : Option Char) : Clear find? behind previous row := by
  induction row generalizing previous with
  | nil => trivial
  | cons cell row ih =>
      refine ⟨hfind _ _ ?_, ih (fun n hn => h (n + 1) (Nat.succ_lt_succ hn)) _⟩
      rw [← List.cons_append, text_append]
      exact h 0 (Nat.zero_lt_succ _)

/-- Whatever follows `row` behind a fence, its walk makes `mended` of it, and changes nothing if
the row is to be left `alone`. -/
def Mends (find? : Option Char → List Cell → Option Fragment) (row : List Cell)
    (mended : List Char) (alone : Prop) : Prop :=
  ∀ previous behind, Fence (text behind) → ∃ pieces last,
    walk find? 0 previous (row ++ behind) = pieces ++ walk find? 0 last behind ∧
      after pieces = mended ∧ (alone → changes pieces = [])

theorem Mends.of_clear {row : List Cell} {alone : Prop}
    (h : ∀ previous behind, Fence (text behind) → Clear find? behind previous row) :
    Mends find? row (text row) alone := by
  intro previous behind hbehind
  exact ⟨keepAll row, _, walk_clear (h previous behind hbehind), after_keepAll row,
    fun _ => changes_keepAll row⟩

theorem Mends.of_fragment {front row back : List Cell} {cell : Cell} {last : Char}
    {replacement : List Char} {alone : Prop} (hlast : (text front).getLast? = some last)
    (halone : ¬ alone)
    (h : ∀ behind, Fence (text behind) →
      (∀ previous, Clear find? (cell :: (row ++ (back ++ behind))) previous front) ∧
        find? (some last) (cell :: (row ++ (back ++ behind))) =
          some ⟨row.length, some replacement⟩ ∧
        ∀ previous, Clear find? behind previous back) :
    Mends find? (front ++ (cell :: (row ++ back))) (text front ++ (replacement ++ text back))
      alone := by
  intro previous behind hbehind
  obtain ⟨hfront, hfragment, hback⟩ := h behind hbehind
  have hrow : front ++ (cell :: (row ++ back)) ++ behind =
      front ++ (cell :: (row ++ (back ++ behind))) := by simp
  refine ⟨keepAll front ++ (.change (text (cell :: row)) replacement :: keepAll back),
    (text back).getLast?.or (text (cell :: row)).getLast?, ?_, ?_,
    fun h => absurd h halone⟩
  · rw [hrow, walk_clear (hfront previous), hlast, Option.some_or, walk_fragment hfragment,
      walk_clear (hback _), List.append_assoc, List.cons_append]
  · simp

theorem fence_gapRow (behind : List Cell) : Fence (text (gapRow ++ behind)) :=
  .inr ⟨' ' :: text behind, rfl⟩

theorem mends_renderRow {mend : Clause → Clause} {clauses : List Clause}
    (hgap : ∀ previous behind, Clear find? behind previous gapRow)
    (h : ∀ clause ∈ clauses, Mends find? clause.row (mend clause).text (mend clause = clause))
    (previous : Option Char) :
    after (walk find? 0 previous (Clause.renderRow clauses)) = Clause.render (clauses.map mend) ∧
      (clauses.map mend = clauses →
        changes (walk find? 0 previous (Clause.renderRow clauses)) = []) := by
  induction clauses generalizing previous with
  | nil => exact ⟨rfl, fun _ => rfl⟩
  | cons clause clauses ih =>
      have hclause := h clause (by simp)
      cases clauses with
      | nil =>
          obtain ⟨pieces, last, hwalk, hafter, hchanges⟩ := hclause previous [] (.inl rfl)
          rw [List.append_nil, walk, List.append_nil] at hwalk
          rw [Clause.renderRow_singleton, hwalk]
          simpa using And.intro hafter hchanges
      | cons next clauses =>
          have hfence := fence_gapRow (Clause.renderRow (next :: clauses))
          obtain ⟨pieces, last, hwalk, hafter, hchanges⟩ := hclause previous _ hfence
          obtain ⟨hrest, hquiet⟩ := ih (fun c hc => h c (by simp [hc])) (some ' ')
          have hpipe : (text gapRow).getLast?.or last = some ' ' := rfl
          rw [Clause.renderRow_cons_cons, List.append_assoc, hwalk, walk_clear (hgap last _), hpipe]
          constructor
          · rw [after_append, after_append, after_keepAll, hafter, hrest, ← List.append_assoc]
            exact (Clause.render_cons_cons _ _ _).symm
          · intro hmap
            obtain ⟨hhead, htail⟩ := List.cons.inj hmap
            rw [changes_append, changes_append, changes_keepAll, hchanges hhead, hquiet htail]
            rfl

theorem ofFragments_render {mend : Clause → Clause} {clauses : List Clause}
    (hgap : ∀ previous behind, Clear find? behind previous gapRow)
    (h : ∀ clause ∈ clauses, Mends find? clause.row (mend clause).text (mend clause = clause)) :
    after (ofFragments find? (cells (Clause.render clauses))) = Clause.render (clauses.map mend) ∧
      (clauses.map mend = clauses →
        changes (ofFragments find? (cells (Clause.render clauses))) = []) := by
  rw [Clause.cells_render]
  exact mends_renderRow hgap h none

end Patch

/-! ## Marks -/

def Unmarked (mark : Char) (text : List Char) : Prop :=
  skipTo? mark (text.dropWhile isNameChar) = none

def IsMark (c : Char) : Prop := isNameChar c = false ∧ isBlank c = false ∧ c ≠ '|'

theorem Unmarked.head? {mark : Char} {text : List Char} (hmark : isBlank mark = false)
    (h : Unmarked mark text) : (text.dropWhile isNameChar).head? ≠ some mark := by
  intro hhead
  obtain ⟨rest, hrest⟩ := List.head?_eq_some_iff.mp hhead
  rw [Unmarked, hrest] at h
  exact absurd h (by simp [skipTo?, trimStart, hmark])

theorem unmarked_append {mark : Char} (hmark : IsMark mark) {text behind : List Char}
    (htext : mark ∉ text) (hbehind : Fence behind) : Unmarked mark (text ++ behind) := by
  obtain ⟨-, hblank, hpipe⟩ := hmark
  have hname := name_append (fun c hc => not_isNameChar_of_gap (hbehind.head? c hc)) text
  have hnone : skipTo? mark behind = none := by
    rw [skipTo?]
    rcases hbehind with h | ⟨rest, h⟩ <;> rw [h]
    exact if_neg (Ne.symm hpipe)
  rw [Unmarked, hname.2, skipTo?_append hnone, Option.map_eq_none_iff]
  by_contra hsome
  obtain ⟨rest, hrest⟩ := Option.ne_none_iff_exists'.mp hsome
  obtain ⟨blanks, -, hdrop⟩ := skipTo?_eq hrest
  refine htext ((List.dropWhile_sublist isNameChar).mem ?_)
  rw [hdrop]
  simp

theorem Patch.clear_of_unmarked {find? : Option Char → List Cell → Option Fragment}
    {marks : List Char} (hmarks : ∀ mark ∈ marks, IsMark mark)
    (hfind : ∀ previous row, (∀ mark ∈ marks, Unmarked mark (text row)) → find? previous row = none)
    {row behind : List Cell} (hrow : ∀ mark ∈ marks, mark ∉ text row)
    (hbehind : Fence (text behind)) (previous : Option Char) : Clear find? behind previous row := by
  induction row generalizing previous with
  | nil => trivial
  | cons cell row ih =>
      refine ⟨hfind previous _ fun mark hmark => ?_, ih (fun mark hmark hmem => ?_) _⟩
      · rw [← List.cons_append, text_append]
        exact unmarked_append (hmarks mark hmark) (hrow mark hmark) hbehind
      · exact hrow mark hmark (List.mem_cons_of_mem _ hmem)

theorem Lexeme.mark_notMem {first more : Char → Bool} [Named first more] {mark : Char}
    (hmark : IsMark mark) (lexeme : Lexeme first more) : mark ∉ lexeme.text := by
  intro hmem
  have hname := Named.name lexeme mark hmem
  rw [hmark.1] at hname
  exact absurd hname (by decide)

theorem Phrase.mark_notMem {mark : Char} (hmark : IsMark mark) (phrase : Phrase) :
    mark ∉ phrase.text := by
  intro hmem
  rcases Bool.or_eq_true_iff.mp (phrase.mem mark hmem) with h | h
  · exact absurd (isNameChar_of_isLower h) (by simp [hmark.1])
  · exact absurd (beq_iff_eq.mp h) (by rintro rfl; exact absurd hmark.2.1 (by decide))

/-! ## Attribute keys -/

namespace QuoteKey

def mendClause : Clause → Clause
  | .mistake (.dottedKey phrase) => .mended (.quotedKey phrase)
  | clause => clause

theorem attribute?_eq_none {text : List Char} (h : Unmarked '.' text) : attribute? text = none := by
  simp only [attribute?, drop_length_takeWhile]
  split
  · rfl
  split
  · rename_i rest hdrop
    exact absurd (congrArg List.head? hdrop) (h.head? rfl)
  · rfl

theorem fragment?_eq_none (previous : Option Char) (row : List Cell)
    (h : attribute? (text row) = none) : fragment? previous row = none := by
  rw [fragment?, h]
  simp

theorem clear_of_no_dot {row behind : List Cell} (hrow : '.' ∉ text row)
    (hbehind : Fence (text behind)) (previous : Option Char) :
    Patch.Clear fragment? behind previous row := by
  refine @Patch.clear_of_unmarked fragment? ['.'] ?_ ?_ row behind ?_ hbehind previous
  · simp [IsMark]
    decide
  · exact fun previous row h => fragment?_eq_none _ _ (attribute?_eq_none (h '.' (by simp)))
  · simpa using hrow

theorem dot_notMem (clause : Clause) : '.' ∉ clause.text ∨
    ∃ phrase, clause = .mistake (.dottedKey phrase) ∨ clause = .mended (.quotedKey phrase) := by
  have hdot : IsMark '.' := ⟨rfl, rfl, by decide⟩
  rcases clause with shape | shape | shape <;> cases shape <;>
    first
    | exact .inr ⟨_, .inl rfl⟩
    | exact .inr ⟨_, .inr rfl⟩
    | simp [Clause.text, Clause.parts, Clause.verb, Clean.verb, Mistake.verb, Mended.verb,
        Clause.arguments, Clean.arguments, Mistake.arguments, Mended.arguments, Part.text,
        Lexeme.mark_notMem hdot, Phrase.mark_notMem hdot]

theorem clear_assignment (phrase : Phrase) {behind : List Cell} (hbehind : Fence (text behind))
    (previous : Option Char) : Patch.Clear fragment? behind previous
      (codeRow " = ".toList ++ literalRow .double phrase.text) := by
  refine clear_of_no_dot ?_ hbehind previous
  simp [Literal.delimiter, phrase.mark_notMem (show IsMark '.' from ⟨rfl, rfl, by decide⟩)]

theorem mends_dottedKey (phrase : Phrase) {alone : Prop} (halone : ¬ alone) :
    Patch.Mends fragment? (Clause.mistake (.dottedKey phrase)).row
      (Clause.mended (.quotedKey phrase)).text alone := by
  have hrow : (Clause.mistake (.dottedKey phrase)).row = codeRow "filter ".toList ++
      (⟨'r', .code⟩ :: (codeRow "esource_attributes.k8s.pod.name".toList ++
        (codeRow " = ".toList ++ literalRow .double phrase.text))) := by
    simp [Clause.row, Clause.parts, Clause.verb, Mistake.verb, Clause.arguments, Mistake.arguments,
      Part.row, codeRow]
  have htext : (Clause.mended (.quotedKey phrase)).text = text (codeRow "filter ".toList) ++
      ("resource_attributes.\"k8s.pod.name\"".toList ++
        text (codeRow " = ".toList ++ literalRow .double phrase.text)) := by
    simp [Clause.text, Clause.parts, Clause.verb, Mended.verb, Clause.arguments, Mended.arguments,
      Part.text, Literal.delimiter]
  rw [hrow, htext]
  refine Patch.Mends.of_fragment (show _ = some ' ' from rfl) halone fun behind hbehind =>
    ⟨fun previous => ?_, rfl, clear_assignment phrase hbehind⟩
  refine ⟨?_, ?_, ?_, ?_, ?_, ?_, ?_, trivial⟩ <;> exact fragment?_eq_none _ _ rfl

theorem mends_quotedKey (phrase : Phrase) {alone : Prop} :
    Patch.Mends fragment? (Clause.mended (.quotedKey phrase)).row
      (Clause.mended (.quotedKey phrase)).text alone := by
  have hrow : (Clause.mended (.quotedKey phrase)).row =
      (codeRow "filter resource_attributes.".toList ++ literalRow .double "k8s.pod.name".toList) ++
        (codeRow " = ".toList ++ literalRow .double phrase.text) := by
    simp [Clause.row, Clause.parts, Clause.verb, Mended.verb, Clause.arguments, Mended.arguments,
      Part.row, codeRow]
  rw [← Clause.text_row, hrow]
  refine .of_clear fun previous behind hbehind =>
    Patch.clear_append ?_ (clear_assignment phrase hbehind)
  refine Patch.clear_of_read fragment?_eq_none (fun n hn => ?_) previous
  have hlength : n < 41 := hn
  interval_cases n <;> rfl

theorem mends_clause (clause : Clause) :
    Patch.Mends fragment? clause.row (mendClause clause).text (mendClause clause = clause) := by
  rcases dot_notMem clause with hdot | ⟨phrase, rfl | rfl⟩
  · have hmend : mendClause clause = clause := by
      unfold mendClause
      split
      · rename_i phrase
        simp [Clause.text, Clause.parts, Clause.arguments, Mistake.arguments, Part.text] at hdot
      · rfl
    rw [hmend, ← clause.text_row]
    refine .of_clear fun previous behind hbehind => clear_of_no_dot ?_ hbehind previous
    rwa [clause.text_row]
  · exact mends_dottedKey phrase (by simp [mendClause])
  · exact mends_quotedKey phrase

theorem clear_gapRow (previous : Option Char) (behind : List Cell) :
    Patch.Clear fragment? behind previous gapRow := by
  refine ⟨?_, ?_, ?_, trivial⟩ <;> exact fragment?_eq_none _ _ rfl

end QuoteKey

/-! ## Searches -/

namespace ExpandTerms

def mendClause : Clause → Clause
  | .mistake (.search first second) => .mended (.anyTerm first second)
  | clause => clause

theorem pathTail_name {text : List Char} (h : (text.dropWhile isNameChar).head? ≠ some '.') :
    pathTail .name text = text.takeWhile isNameChar := by
  induction text with
  | nil => rfl
  | cons c text ih =>
      cases hc : isNameChar c with
      | true =>
          rw [List.dropWhile_cons_of_pos hc] at h
          rw [pathTail, if_pos hc, List.takeWhile_cons_of_pos hc, ih h]
      | false =>
          rw [List.dropWhile_cons_of_neg (by simp [hc])] at h
          rw [pathTail, if_neg (by simp [hc]), if_neg fun hdot => h (by simp [hdot.1]),
            List.takeWhile_cons_of_neg (by simp [hc])]

theorem search?_eq_none {text : List Char} (hdot : Unmarked '.' text) (htilde : Unmarked '~' text) :
    search? text = none := by
  cases text with
  | nil => rfl
  | cons c text =>
      rw [search?, path?]
      split
      · rename_i hc
        have hname := isNameChar_of_isNameStart hc
        have hpath : c :: pathTail .name text = (c :: text).takeWhile isNameChar := by
          have hhead := hdot.head? (by decide)
          rw [List.dropWhile_cons_of_pos hname] at hhead
          rw [List.takeWhile_cons_of_pos hname, pathTail_name hhead]
        rw [Option.bind_some, hpath, drop_length_takeWhile, htilde]
        rfl
      · rfl

theorem fragment?_eq_none (previous : Option Char) (row : List Cell)
    (h : search? (text row) = none) : fragment? previous row = none := by
  rw [fragment?, h]
  simp

theorem clear_of_no_mark {row behind : List Cell} (hdot : '.' ∉ text row) (htilde : '~' ∉ text row)
    (hbehind : Fence (text behind)) (previous : Option Char) :
    Patch.Clear fragment? behind previous row := by
  refine @Patch.clear_of_unmarked fragment? ['.', '~'] ?_ ?_ row behind ?_ hbehind previous
  · simp [IsMark]
    decide
  · intro previous row h
    exact fragment?_eq_none _ _ (search?_eq_none (h '.' (by simp)) (h '~' (by simp)))
  · simpa using ⟨hdot, htilde⟩

theorem tilde_notMem (clause : Clause) : '~' ∉ clause.text ∨
    ∃ first second, clause = .mistake (.search first second) := by
  have htilde : IsMark '~' := ⟨rfl, rfl, by decide⟩
  rcases clause with shape | shape | shape <;> cases shape <;>
    first
    | exact .inr ⟨_, _, rfl⟩
    | simp [Clause.text, Clause.parts, Clause.verb, Clean.verb, Mistake.verb, Mended.verb,
        Clause.arguments, Clean.arguments, Mistake.arguments, Mended.arguments, Part.text,
        Lexeme.mark_notMem htilde, Phrase.mark_notMem htilde]

/-! ### Keys -/

theorem clear_phrase (phrase : Phrase) {behind : List Cell} (hbehind : Fence (text behind))
    (previous : Option Char) :
    Patch.Clear fragment? behind previous (literalRow .double phrase.text) := by
  refine clear_of_no_mark ?_ ?_ hbehind previous
  · simp [Literal.delimiter, phrase.mark_notMem (show IsMark '.' from ⟨rfl, rfl, by decide⟩)]
  · simp [Literal.delimiter, phrase.mark_notMem (show IsMark '~' from ⟨rfl, rfl, by decide⟩)]

theorem mends_dottedKey (phrase : Phrase) {alone : Prop} :
    Patch.Mends fragment? (Clause.mistake (.dottedKey phrase)).row
      (Clause.mistake (.dottedKey phrase)).text alone := by
  have hrow : (Clause.mistake (.dottedKey phrase)).row =
      codeRow "filter resource_attributes.k8s.pod.name = ".toList ++
        literalRow .double phrase.text := by
    simp [Clause.row, Clause.parts, Clause.verb, Mistake.verb, Clause.arguments, Mistake.arguments,
      Part.row, codeRow]
  rw [← Clause.text_row, hrow]
  refine .of_clear fun previous behind hbehind =>
    Patch.clear_append ?_ (clear_phrase phrase hbehind)
  refine Patch.clear_of_read fragment?_eq_none (fun n hn => ?_) previous
  have hlength : n < 42 := hn
  interval_cases n <;> rfl

theorem mends_quotedKey (phrase : Phrase) {alone : Prop} :
    Patch.Mends fragment? (Clause.mended (.quotedKey phrase)).row
      (Clause.mended (.quotedKey phrase)).text alone := by
  have hrow : (Clause.mended (.quotedKey phrase)).row =
      (codeRow "filter resource_attributes.".toList ++ literalRow .double "k8s.pod.name".toList ++
        codeRow " = ".toList) ++ literalRow .double phrase.text := by
    simp [Clause.row, Clause.parts, Clause.verb, Mended.verb, Clause.arguments, Mended.arguments,
      Part.row, codeRow]
  rw [← Clause.text_row, hrow]
  refine .of_clear fun previous behind hbehind =>
    Patch.clear_append ?_ (clear_phrase phrase hbehind)
  refine Patch.clear_of_read fragment?_eq_none (fun n hn => ?_) previous
  have hlength : n < 44 := hn
  interval_cases n <;> rfl

/-! ### Terms -/

theorem termsFrom_word {word : List Char} (hword : ∀ c ∈ word, c ≠ '"' ∧ isBlank c = false)
    (current rest : List Char) :
    termsFrom current false (word ++ rest) = termsFrom (current ++ word) false rest := by
  induction word generalizing current with
  | nil => simp
  | cons c word ih =>
      obtain ⟨hquote, hblank⟩ := hword c (by simp)
      rw [List.cons_append, termsFrom, if_neg hquote, if_neg (by simp [hblank]),
        ih fun d hd => hword d (by simp [hd])]
      simp

theorem terms_pair (first second : Term) :
    terms (first.text ++ ' ' :: second.text) = [first.text, second.text] := by
  have hword (term : Term) : ∀ c ∈ term.text, c ≠ '"' ∧ isBlank c = false := by
    intro c hc
    have hname := Lexeme.Named.name term c hc
    constructor
    · rintro rfl
      exact absurd hname (by decide)
    · exact isBlank_of_isNameChar hname
  have hsecond := termsFrom_word (hword second) [] []
  rw [List.append_nil] at hsecond
  have hspace : termsFrom first.text false (' ' :: second.text) =
      first.text :: termsFrom [] false second.text := rfl
  rw [terms, termsFrom_word (hword first), List.nil_append, hspace, hsecond]
  simp [termsFrom, Lexeme.text]

theorem quote_term (term : Term) : quote term.text = (Part.string term.text).text := by
  have hescape : ∀ c ∈ term.text, (if c = '\\' ∨ c = '"' then ['\\', c] else [c]) = [c] := by
    intro c hc
    have hname := Lexeme.Named.name term c hc
    refine if_neg ?_
    rintro (rfl | rfl) <;> exact absurd hname (by decide)
  rw [quote, List.flatMap_congr hescape]
  simp [Part.text]

theorem search?_field {field content rest : List Char}
    (hfield : path? (field ++ (" ~ <".toList ++ (content ++ '>' :: rest))) = some field)
    (hcontent : ∀ c ∈ content, c ≠ '<' ∧ c ≠ '>') :
    search? (field ++ (" ~ <".toList ++ (content ++ '>' :: rest))) =
      some ⟨field, content, (field ++ (" ~ <".toList ++ (content ++ ['>']))).length⟩ := by
  have htake : (content ++ '>' :: rest).takeWhile (fun c => c != '<' && c != '>') = content := by
    rw [List.takeWhile_append_of_pos fun c hc => by simpa using hcontent c hc,
      List.takeWhile_cons_of_neg (by decide), List.append_nil]
  have htilde : skipTo? '~' (" ~ <".toList ++ (content ++ '>' :: rest)) =
      some (" <".toList ++ (content ++ '>' :: rest)) := rfl
  have hangle : skipTo? '<' (" <".toList ++ (content ++ '>' :: rest)) =
      some (content ++ '>' :: rest) := rfl
  have hsize : (field ++ (" ~ <".toList ++ (content ++ '>' :: rest))).length - rest.length =
      (field ++ (" ~ <".toList ++ (content ++ ['>']))).length := by
    simp
    omega
  rw [search?, hfield, Option.bind_some, List.drop_left, htilde, Option.bind_some, hangle,
    Option.bind_some]
  simp only [htake, List.drop_left, hsize]

theorem search?_pair (first second : Term) (rest : List Char) :
    search? ("body ~ <".toList ++ (first.text ++ ' ' :: second.text) ++ '>' :: rest) =
      some ⟨"body".toList, first.text ++ ' ' :: second.text,
        ("body ~ <".toList ++ (first.text ++ ' ' :: second.text) ++ ['>']).length⟩ := by
  have hword (term : Term) : ∀ c ∈ term.text, c ≠ '<' ∧ c ≠ '>' := by
    intro c hc
    have hname := Lexeme.Named.name term c hc
    constructor <;> rintro rfl <;> exact absurd hname (by decide)
  have hterms : ∀ c ∈ first.text ++ ' ' :: second.text, c ≠ '<' ∧ c ≠ '>' := by
    intro c hc
    rcases List.mem_append.mp hc with hc | hc
    · exact hword first c hc
    · rcases List.mem_cons.mp hc with rfl | hc
      · decide
      · exact hword second c hc
  have hsplit (back : List Char) : "body ~ <".toList ++ (first.text ++ ' ' :: second.text) ++ back =
      "body".toList ++ (" ~ <".toList ++ ((first.text ++ ' ' :: second.text) ++ back)) := by
    simp
  rw [hsplit, hsplit]
  exact search?_field rfl hterms

theorem containsCall_term (term : Term) : containsCall "body".toList term.text =
    "contains(body, ".toList ++ ((Part.string term.text).text ++ ")".toList) := by
  have hfront : "contains(body, ".toList = "contains(".toList ++ ("body".toList ++ ", ".toList) := by
    decide
  rw [← quote_term, hfront]
  unfold containsCall
  simp only [List.append_assoc]
  rfl

theorem expand?_pair (first second : Term) :
    expand? "body".toList (terms (first.text ++ ' ' :: second.text)) =
      some ("(contains(body, ".toList ++ ((Part.string first.text).text ++
        (") or contains(body, ".toList ++ ((Part.string second.text).text ++ "))".toList)))) := by
  have hjoin (a b : List Char) : List.intercalate " or ".toList [a, b] =
      a ++ (" or ".toList ++ b) := by
    simp [List.intercalate]
  rw [terms_pair, expand?, if_neg (by simp), List.map_cons, List.map_cons, List.map_nil, hjoin,
    containsCall_term, containsCall_term]
  simp

theorem fragment?_code {c : Char} (hstart : isNameStart c = true) (row : List Cell) :
    fragment? (some ' ') (⟨c, .code⟩ :: row) =
      (search? (text (⟨c, .code⟩ :: row))).map fun search =>
        ⟨search.size - 1, expand? search.field (terms search.terms)⟩ := by
  rw [fragment?, if_neg (by simp [hstart])]
  rfl

theorem fragment?_pair (first second : Term) (behind : List Cell) :
    fragment? (some ' ') (⟨'b', .code⟩ ::
        (codeRow ("ody ~ <".toList ++ (first.text ++ ' ' :: second.text) ++ ['>']) ++ behind)) =
      some ⟨(codeRow ("ody ~ <".toList ++ (first.text ++ ' ' :: second.text) ++ ['>'])).length,
        expand? "body".toList (terms (first.text ++ ' ' :: second.text))⟩ := by
  generalize hpair : first.text ++ ' ' :: second.text = pair
  have hsearch := search?_pair first second (text behind)
  rw [hpair] at hsearch
  have htext : text (⟨'b', .code⟩ :: (codeRow ("ody ~ <".toList ++ pair ++ ['>']) ++ behind)) =
      "body ~ <".toList ++ pair ++ '>' :: text behind := by
    simp [text_append]
  rw [fragment?_code (by decide), htext, hsearch, Option.map_some]
  simp [codeRow]

theorem mends_search (first second : Term) {alone : Prop} (halone : ¬ alone) :
    Patch.Mends fragment? (Clause.mistake (.search first second)).row
      (Clause.mended (.anyTerm first second)).text alone := by
  have hrow : (Clause.mistake (.search first second)).row = codeRow "filter ".toList ++
      (⟨'b', .code⟩ :: (codeRow ("ody ~ <".toList ++ (first.text ++ ' ' :: second.text) ++ ['>']) ++
        [])) := by
    simp [Clause.row, Clause.parts, Clause.verb, Mistake.verb, Clause.arguments, Mistake.arguments,
      Part.row, codeRow]
  have htext : (Clause.mended (.anyTerm first second)).text = text (codeRow "filter ".toList) ++
      ("(contains(body, ".toList ++ ((Part.string first.text).text ++
        (") or contains(body, ".toList ++ ((Part.string second.text).text ++ "))".toList))) ++
          text []) := by
    simp [Clause.text, Clause.parts, Clause.verb, Mended.verb, Clause.arguments, Mended.arguments,
      Part.text]
  rw [hrow, htext]
  refine Patch.Mends.of_fragment (show _ = some ' ' from rfl) halone fun behind hbehind =>
    ⟨fun previous => ?_, ?_, fun previous => trivial⟩
  · refine ⟨?_, ?_, ?_, ?_, ?_, ?_, ?_, trivial⟩ <;>
      exact fragment?_eq_none _ _ (search?_eq_none rfl rfl)
  · rw [List.nil_append, fragment?_pair, expand?_pair]

theorem mends_clause (clause : Clause) :
    Patch.Mends fragment? clause.row (mendClause clause).text (mendClause clause = clause) := by
  rcases tilde_notMem clause with htilde | ⟨first, second, rfl⟩
  · have hmend : mendClause clause = clause := by
      unfold mendClause
      split
      · simp [Clause.text, Clause.parts, Clause.arguments, Mistake.arguments, Part.text] at htilde
      · rfl
    rw [hmend]
    rcases QuoteKey.dot_notMem clause with hdot | ⟨phrase, rfl | rfl⟩
    · rw [← clause.text_row] at hdot htilde ⊢
      exact .of_clear fun previous behind hbehind => clear_of_no_mark hdot htilde hbehind previous
    · exact mends_dottedKey phrase
    · exact mends_quotedKey phrase
  · exact mends_search first second (by simp [mendClause])

end ExpandTerms

/-! ## The passes -/

theorem quoteKey_turns (context : Context) (clauses : List Clause) :
    quoteKey.Turns context clauses (clauses.map QuoteKey.mendClause) := by
  obtain ⟨hafter, hquiet⟩ := Patch.ofFragments_render QuoteKey.clear_gapRow
    fun clause (_ : clause ∈ clauses) => QuoteKey.mends_clause clause
  exact Pass.turns_ofPatch (by simp [QuoteKey.patch]) hafter hquiet

theorem expandTerms_turns (context : Context) (clauses : List Clause) :
    expandTerms.Turns context clauses (clauses.map ExpandTerms.mendClause) := by
  have hgap (previous : Option Char) (behind : List Cell) :
      Patch.Clear ExpandTerms.fragment? behind previous gapRow := by
    refine ⟨?_, ?_, ?_, trivial⟩ <;> exact ExpandTerms.fragment?_eq_none _ _ rfl
  obtain ⟨hafter, hquiet⟩ := Patch.ofFragments_render hgap
    fun clause (_ : clause ∈ clauses) => ExpandTerms.mends_clause clause
  exact Pass.turns_ofPatch (by simp [ExpandTerms.patch]) hafter hquiet

end OpalRepair
