import Mathlib
import OpalRepair.Check
import OpalRepair.Proofs.Characters
import OpalRepair.Proofs.Reading

/-!
# Called words, cell by cell

Whether a word is called shows only behind it, at the parenthesis.  A reader that remembers the word
it has just passed decides it without looking ahead, so rows can be judged part by part.
-/

namespace OpalRepair.Query

open Text

/-- What a reader remembers: nothing, a dot, a word that cannot be called, or a word that can be,
possibly with blanks behind it. -/
inductive Word where
  | idle
  | dot
  | inert
  | name (run : List Char)
  | spaced (run : List Char)
  deriving DecidableEq

namespace Word

def begin (cell : Cell) : Word :=
  if (isAlphabetic cell.char || cell.char == '_') && !cell.isLiteral then .name [cell.char]
  else .inert

def step (word : Word) (cell : Cell) : Word :=
  if isWordChar cell.char then
    match word with
    | .name run => .name (run ++ [cell.char])
    | .inert | .dot => .inert
    | .idle | .spaced _ => begin cell
  else if isBlank cell.char then
    match word with
    | .name run | .spaced run => .spaced run
    | .inert | .dot | .idle => .idle
  else if cell.char = '.' then .dot
  else .idle

def pending? : Word → Option (List Char)
  | .name run | .spaced run => some run
  | .idle | .dot | .inert => none

/-- A parenthesis here calls a word that is `known`, if it calls one. -/
def Admits (known : List Char → Prop) (word : Word) (cell : Cell) : Prop :=
  cell.char = '(' → ∀ run ∈ word.pending?, known run

def Sound (known : List Char → Prop) (word : Word) : List Cell → Prop
  | [] => True
  | cell :: row => word.Admits known cell ∧ (word.step cell).Sound known row

def after (word : Word) (row : List Cell) : Word := row.foldl step word

variable {known : List Char → Prop}

@[simp] theorem sound_nil (word : Word) : word.Sound known [] := trivial

theorem sound_cons (word : Word) (cell : Cell) (row : List Cell) :
    word.Sound known (cell :: row) ↔ word.Admits known cell ∧ (word.step cell).Sound known row :=
  Iff.rfl

@[simp] theorem after_nil (word : Word) : word.after [] = word := rfl

@[simp] theorem after_cons (word : Word) (cell : Cell) (row : List Cell) :
    word.after (cell :: row) = (word.step cell).after row := rfl

theorem after_append (word : Word) (a b : List Cell) :
    word.after (a ++ b) = (word.after a).after b := List.foldl_append

theorem sound_append (word : Word) (a b : List Cell) :
    word.Sound known (a ++ b) ↔ word.Sound known a ∧ (word.after a).Sound known b := by
  induction a generalizing word with
  | nil => simp
  | cons cell a ih => simp [sound_cons, ih, and_assoc]

theorem sound_of_no_paren (word : Word) {row : List Cell} (h : ∀ cell ∈ row, cell.char ≠ '(') :
    word.Sound known row := by
  induction row generalizing word with
  | nil => trivial
  | cons cell row ih =>
      exact ⟨fun hparen => absurd hparen (h cell (by simp)), ih _ fun c hc => h c (by simp [hc])⟩

def Ends (c : Char) : Prop := isWordChar c = false ∧ isBlank c = false ∧ c ≠ '.'

theorem step_ends (word : Word) {cell : Cell} (h : Ends cell.char) : word.step cell = .idle := by
  obtain ⟨hword, hblank, hdot⟩ := h
  simp [step, hword, hblank, hdot]

theorem after_ends (word : Word) (row : List Cell) {cell : Cell} (h : Ends cell.char) :
    word.after (row ++ [cell]) = .idle := by
  rw [after_append, after_cons, after_nil, step_ends _ h]

/-- Behind a character that neither goes on with a word nor is blank, the word before is forgotten. -/
theorem step_forgets (word word' : Word) {cell : Cell} (hword : isWordChar cell.char = false)
    (hblank : isBlank cell.char = false) : word.step cell = word'.step cell := by
  simp [step, hword, hblank]

theorem step_blank_idle {word : Word} (hword : word.pending? = none) {cell : Cell}
    (h : isBlank cell.char = true) : word.step cell = .idle := by
  have hchar := isWordChar_of_isBlank h
  cases word <;> simp_all [step, pending?]

/-! ## Words ahead -/

def calledAhead (text : List Char) : Bool :=
  (skipTo? '(' (text.dropWhile isWordChar)).isSome

theorem skipTo?_cons_blank {c d : Char} (hd : isBlank d = true) (rest : List Char) :
    skipTo? c (d :: rest) = skipTo? c rest := by
  rw [skipTo?, skipTo?, trimStart, List.dropWhile_cons_of_pos hd, trimStart]

theorem skipTo?_cons_other {c d : Char} (hd : isBlank d = false) (rest : List Char) :
    skipTo? c (d :: rest) = if d = c then some rest else none := by
  simpa using skipTo?_blanks (c := c) (show ∀ b ∈ [], isBlank b = true by simp) hd

theorem sound_spaced_iff (run : List Char) (row : List Cell) :
    (spaced run).Sound known row ↔
      ((skipTo? '(' (text row)).isSome = true → known run) ∧
        idle.Sound known row := by
  induction row with
  | nil => simp [skipTo?, trimStart]
  | cons cell row ih =>
      rw [sound_cons, sound_cons, text_cons]
      cases hword : isWordChar cell.char with
      | true =>
          have hblank : isBlank cell.char = false := by
            by_contra h
            simp [isWordChar_of_isBlank (by simpa using h)] at hword
          have hparen : cell.char ≠ '(' := by rintro h; rw [h] at hword; revert hword; decide
          rw [skipTo?_cons_other hblank, if_neg hparen]
          simp [Admits, hparen, step, hword]
      | false =>
          cases hblank : isBlank cell.char with
          | true =>
              have hparen : cell.char ≠ '(' := by rintro h; rw [h] at hblank; revert hblank; decide
              rw [skipTo?_cons_blank hblank]
              simp [Admits, hparen, step, hword, hblank, ih]
          | false =>
              rw [skipTo?_cons_other hblank, step_forgets (spaced run) idle hword hblank]
              by_cases hparen : cell.char = '(' <;> simp [Admits, hparen, pending?]

theorem sound_name_iff (run : List Char) (row : List Cell) :
    (name run).Sound known row ↔
      (calledAhead (text row) = true →
        known (run ++ (text row).takeWhile isWordChar)) ∧
        inert.Sound known row := by
  induction row generalizing run with
  | nil => simp [calledAhead, skipTo?, trimStart]
  | cons cell row ih =>
      rw [sound_cons, sound_cons, text_cons]
      cases hword : isWordChar cell.char with
      | true =>
          have hparen : cell.char ≠ '(' := by rintro h; rw [h] at hword; revert hword; decide
          simp [Admits, hparen, step, hword, ih, calledAhead]
      | false =>
          cases hblank : isBlank cell.char with
          | true =>
              have hparen : cell.char ≠ '(' := by rintro h; rw [h] at hblank; revert hblank; decide
              simp [Admits, hparen, step, hword, hblank, calledAhead, sound_spaced_iff,
                skipTo?_cons_blank hblank]
          | false =>
              rw [calledAhead, List.dropWhile_cons_of_neg (by simp [hword]),
                List.takeWhile_cons_of_neg (by simp [hword]), skipTo?_cons_other hblank,
                step_forgets (name run) inert hword hblank]
              by_cases hparen : cell.char = '(' <;> simp [Admits, hparen, pending?]

theorem Sound.inert {word : Word} {row : List Cell} (h : word.Sound known row) :
    inert.Sound known row := by
  cases row with
  | nil => trivial
  | cons cell row =>
      refine ⟨by simp [Admits, pending?], ?_⟩
      have hrest := h.2
      cases hword : isWordChar cell.char with
      | true =>
          have hinert : Word.inert.step cell = .inert := by simp [step, hword]
          rw [hinert]
          cases hstep : word.step cell with
          | inert => rwa [hstep] at hrest
          | name run =>
              rw [hstep] at hrest
              exact ((sound_name_iff run row).mp hrest).2
          | idle | dot | spaced run =>
              cases word <;> simp [step, hword, begin] at hstep <;> split at hstep <;> cases hstep
      | false =>
          cases hblank : isBlank cell.char with
          | false => rwa [step_forgets .inert word hword hblank]
          | true =>
              have hidle : Word.inert.step cell = .idle := step_blank_idle rfl hblank
              rw [hidle]
              cases hpending : word.pending? with
              | none => rwa [step_blank_idle hpending hblank] at hrest
              | some run =>
                  have hspaced : word.step cell = .spaced run := by
                    cases word <;> simp_all [step, pending?]
                  rw [hspaced] at hrest
                  exact ((sound_spaced_iff run row).mp hrest).2

/-! ## Sites -/

def behind (previous : Option Char) : Word :=
  if previous = some '.' then .dot else if joinsWord previous then .inert else .idle

theorem calledWord?_eq (index : Nat) (previous : Option Char) (cell : Cell) (row : List Cell) :
    calledWord? ⟨index, previous, cell :: row⟩ =
      if behind previous = .idle ∧ begin cell = .name [cell.char] ∧
          calledAhead (cell.char :: text row) = true then
        some ((cell.char :: text row).takeWhile isWordChar)
      else none := by
  have hskip (found : Option (List Char)) (word : List Char) :
      (found.map fun _ => word) = if found.isSome = true then some word else none := by
    cases found <;> rfl
  have hidle : behind previous = .idle ↔ joinsWord previous = false ∧ previous ≠ some '.' := by
    unfold behind
    split_ifs with hdot hjoins <;> simp_all
  have hbegin : begin cell = .name [cell.char] ↔
      ((isAlphabetic cell.char || cell.char == '_') && !cell.isLiteral) = true := by
    unfold begin
    split_ifs with h <;> simp [h]
  simp only [calledWord?, Site.startsWord, text_cons, hskip, calledAhead, hidle, hbegin]
  cases hjoins : joinsWord previous <;> by_cases hdot : previous = some '.' <;>
    cases hletter : isAlphabetic cell.char || cell.char == '_' <;> cases hliteral : cell.isLiteral <;>
      simp [hdot]

def CallsOnly (known : List Char → Prop) (index : Nat) (previous : Option Char)
    (row : List Cell) : Prop :=
  ∀ site ∈ sitesFrom index previous row, ∀ word ∈ calledWord? site,
    known word

theorem callsOnly_iff (index : Nat) (previous : Option Char) (row : List Cell) :
    CallsOnly known index previous row ↔ (behind previous).Sound known row := by
  induction row generalizing index previous with
  | nil => simp [CallsOnly, sitesFrom]
  | cons cell row ih =>
      have hcons : CallsOnly known index previous (cell :: row) ↔
          (∀ word ∈ calledWord? ⟨index, previous, cell :: row⟩,
            known word) ∧
          CallsOnly known (index + 1) (some cell.char) row := by
        simp [CallsOnly, sitesFrom]
      have hadmits : (behind previous).Admits known cell := by
        intro _ run hrun
        unfold behind at hrun
        split_ifs at hrun <;> simp [pending?] at hrun
      rw [hcons, ih, sound_cons, calledWord?_eq, and_iff_right hadmits]
      cases hword : isWordChar cell.char with
      | false =>
          have hbegin : begin cell ≠ .name [cell.char] := by
            unfold begin
            split_ifs with h
            · rw [Bool.and_eq_true, Bool.or_eq_true] at h
              rcases h.1 with h | h
              · simp [isWordChar_of_isAlphabetic h] at hword
              · rw [beq_iff_eq] at h
                rw [h] at hword
                exact absurd hword (by decide)
            · simp
          have hpending : (behind previous).pending? = none := by
            unfold behind
            split_ifs <;> rfl
          have hstep : (behind previous).step cell = behind (some cell.char) := by
            cases hblank : isBlank cell.char with
            | true =>
                have hdot : cell.char ≠ '.' := by
                  intro h
                  rw [h] at hblank
                  exact absurd hblank (by decide)
                rw [step_blank_idle hpending hblank]
                simp [behind, joinsWord, hword, hdot]
            | false => simp [step, behind, joinsWord, hword, hblank]
          rw [if_neg (by simp [hbegin]), hstep]
          simp
      | true =>
          have hbehind : behind (some cell.char) = .inert := by
            have hdot : cell.char ≠ '.' := by
              intro h
              rw [h] at hword
              exact absurd hword (by decide)
            simp [behind, hdot, joinsWord, hword]
          rw [hbehind]
          by_cases hidle : behind previous = .idle
          · have hstep : (behind previous).step cell = begin cell := by simp [hidle, step, hword]
            rw [hstep]
            by_cases hbegin : begin cell = .name [cell.char]
            · have hahead : calledAhead (cell.char :: text row) = calledAhead (text row) := by
                simp [calledAhead, hword]
              rw [hbegin, sound_name_iff, hahead]
              cases calledAhead (text row) <;> simp [hidle, hword]
            · have hinert : begin cell = .inert := by
                unfold begin at hbegin ⊢
                split_ifs with h
                · exact absurd (by rw [if_pos h]) hbegin
                · rfl
              simp [hinert]
          · have hstep : (behind previous).step cell = .inert := by
              unfold behind at hidle ⊢
              split_ifs at hidle ⊢ <;> simp_all [step]
            simp [hidle, hstep]

end Word

end OpalRepair.Query
