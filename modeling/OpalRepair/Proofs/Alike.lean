import Mathlib
import OpalRepair.Proofs.Code

/-!
# Scanners that read alike

Of the last significant character a scanner only asks whether a regex may follow it.  Scanners that
agree on this give the same roles to the same text, whatever text precedes it.
-/

namespace OpalRepair.Query

open Text

namespace Scanner

structure Alike (s t : Scanner) : Prop where
  mode : s.mode = t.mode
  escaped : s.escaped = t.escaped
  regex : opensRegex s.last = opensRegex t.last

theorem Alike.refl (s : Scanner) : s.Alike s := ⟨rfl, rfl, rfl⟩

theorem openedBy?_congr {last last' : Option Char} (h : opensRegex last = opensRegex last')
    (c : Char) : Literal.openedBy? last c = Literal.openedBy? last' c := by
  simp only [Literal.openedBy?, h]

theorem opensRegex_significant {last last' : Option Char}
    (h : opensRegex last = opensRegex last') (c : Char) :
    opensRegex (significant last c) = opensRegex (significant last' c) := by
  unfold significant
  split
  · exact h
  · rfl

def Heeds (s : Scanner) (c : Char) : Prop :=
  s.mode = .inside .regex ∧ s.escaped = false ∧ c = '/'

theorem Alike.step {s t : Scanner} (h : s.Alike t) (c : Char) {rest rest' : List Char}
    (hflags : s.Heeds c → regexFlagCount rest = regexFlagCount rest') :
    (s.step c rest).1 = (t.step c rest').1 ∧ (s.step c rest).2.Alike (t.step c rest').2 := by
  obtain ⟨hmode, hescaped, hregex⟩ := h
  have hopened := openedBy?_congr hregex c
  have hlast := opensRegex_significant hregex c
  cases hs : s.mode with
  | flags more => simp [Scanner.step, hs, ← hmode, Alike.mk, hescaped, hregex]
  | code =>
      simp only [Scanner.step, hs, ← hmode, ← hescaped, ← hopened]
      cases Literal.openedBy? s.last c with
      | none => split_ifs <;> exact ⟨rfl, rfl, rfl, by first | exact hlast | exact hregex⟩
      | some literal => split_ifs <;> exact ⟨rfl, rfl, rfl, by first | exact hlast | exact hregex | rfl⟩
  | inside literal =>
      simp only [Scanner.step, hs, ← hmode, ← hescaped]
      split_ifs with hesc hback hclose
      · exact ⟨rfl, rfl, rfl, hlast⟩
      · exact ⟨rfl, rfl, rfl, hregex⟩
      · refine ⟨rfl, ?_, rfl, rfl⟩
        cases literal with
        | double | single => rfl
        | regex =>
            have hheeds : s.Heeds c := ⟨hs, by simpa using hesc, hclose⟩
            simp only [Literal.modeAfter, hflags hheeds]
      · exact ⟨rfl, rfl, rfl, hlast⟩

theorem Alike.paint {s t : Scanner} (h : s.Alike t) (query : List Char) :
    s.paint query = t.paint query := by
  induction query generalizing s t with
  | nil => rfl
  | cons c rest ih =>
      obtain ⟨hrole, hnext⟩ := h.step c fun _ => (rfl : regexFlagCount rest = regexFlagCount rest)
      rw [Scanner.paint, Scanner.paint, hrole, ih hnext]

theorem Alike.finish {s t : Scanner} (h : s.Alike t) (query : List Char) :
    (s.finish query).Alike (t.finish query) := by
  induction query generalizing s t with
  | nil => exact h
  | cons c rest ih => exact ih (h.step c fun _ => rfl).2

theorem regexFlagCount_congr {rest rest' : List Char}
    (h : rest.takeWhile isNameChar = rest'.takeWhile isNameChar) :
    regexFlagCount rest = regexFlagCount rest' := by
  rw [regexFlagCount, regexFlagCount, h]

theorem takeWhile_append_congr {rest rest' : List Char}
    (h : rest.takeWhile isNameChar = rest'.takeWhile isNameChar) (part : List Char) :
    (part ++ rest).takeWhile isNameChar = (part ++ rest').takeWhile isNameChar := by
  induction part with
  | nil => exact h
  | cons c part ih => simp only [List.cons_append, List.takeWhile_cons, ih]

theorem Alike.paintPart {s t : Scanner} (h : s.Alike t) {rest rest' : List Char}
    (hrest : rest.takeWhile isNameChar = rest'.takeWhile isNameChar) (part : List Char) :
    s.paintPart rest part = t.paintPart rest' part ∧
      (s.reach rest part).Alike (t.reach rest' part) := by
  induction part generalizing s t with
  | nil => exact ⟨rfl, h⟩
  | cons c part ih =>
      obtain ⟨hrole, hnext⟩ := h.step c fun _ =>
        regexFlagCount_congr (takeWhile_append_congr hrest part)
      obtain ⟨hpaint, hreach⟩ := ih hnext
      rw [paintPart_cons, paintPart_cons, hrole, hpaint]
      exact ⟨rfl, hreach⟩

/-! ## Parts that leave nothing open -/

/-- Whatever follows, `part` is read from `s` on as `row` and leaves the scanner in state `t`. -/
def Consumes (s : Scanner) (part : List Char) (row : List Cell) (t : Scanner) : Prop :=
  ∀ rest, s.paint (part ++ rest) = row ++ t.paint rest ∧ s.finish (part ++ rest) = t.finish rest

theorem Consumes.nil (s : Scanner) : s.Consumes [] [] s := fun _ => ⟨rfl, rfl⟩

theorem Consumes.append {s t u : Scanner} {part part' : List Char} {row row' : List Cell}
    (h : s.Consumes part row t) (h' : t.Consumes part' row' u) :
    s.Consumes (part ++ part') (row ++ row') u := by
  intro rest
  obtain ⟨hpaint, hfinish⟩ := h (part' ++ rest)
  obtain ⟨hpaint', hfinish'⟩ := h' rest
  rw [List.append_assoc, hpaint, hfinish, hpaint', hfinish', List.append_assoc]
  exact ⟨rfl, rfl⟩

theorem Consumes.cons {s t u : Scanner} {c : Char} {role : Role} {part : List Char} {row : List Cell}
    (h : ∀ rest, s.step c rest = (role, t)) (h' : t.Consumes part row u) :
    s.Consumes (c :: part) (⟨c, role⟩ :: row) u := by
  intro rest
  rw [List.cons_append, Scanner.paint, Scanner.finish, h]
  exact ⟨by rw [(h' rest).1, List.cons_append], (h' rest).2⟩

def atCode (last : Option Char) : Scanner := ⟨.code, false, last⟩

theorem alike_atCode {s : Scanner} (hmode : s.mode = .code) (hescaped : s.escaped = false) :
    s.Alike (atCode s.last) :=
  ⟨hmode, hescaped, rfl⟩

end Scanner

def codeRow (part : List Char) : List Cell := part.map fun c => ⟨c, .code⟩

def contentRow (part : List Char) : List Cell := part.map fun c => ⟨c, .content⟩

def literalRow (kind : Literal) (part : List Char) : List Cell :=
  ⟨kind.delimiter, .opening⟩ :: (contentRow part ++ [⟨kind.delimiter, .closing⟩])

@[simp] theorem text_codeRow (part : List Char) : text (codeRow part) = part := by
  simp [text, codeRow, Function.comp_def]

@[simp] theorem text_contentRow (part : List Char) : text (contentRow part) = part := by
  simp [text, contentRow, Function.comp_def]

@[simp] theorem text_literalRow (kind : Literal) (part : List Char) :
    text (literalRow kind part) = kind.delimiter :: (part ++ [kind.delimiter]) := by
  simp [literalRow]

namespace Scanner

theorem step_atCode {last : Option Char} {c : Char} (hc : Plain c) (hpipe : c ≠ '|')
    (rest : List Char) : (atCode last).step c rest = (.code, atCode (significant last c)) := by
  obtain ⟨hdouble, hsingle, hslash, hback⟩ := hc
  simp [step, atCode, Literal.openedBy?, hdouble, hsingle, hslash, hback, hpipe]

theorem reads_code (last : Option Char) {part : List Char}
    (hpart : ∀ c ∈ part, Plain c ∧ c ≠ '|') :
    (atCode last).Consumes part (codeRow part) (atCode (part.foldl significant last)) := by
  induction part generalizing last with
  | nil => exact .nil _
  | cons c part ih =>
      obtain ⟨hc, hpipe⟩ := hpart c (by simp)
      exact .cons (step_atCode hc hpipe) (ih _ fun d hd => hpart d (by simp [hd]))

theorem reads_separator (last : Option Char) :
    (atCode last).Consumes ['|'] [⟨'|', .separator⟩] (atCode (some '|')) :=
  .cons (fun _ => rfl) (.nil _)

def atLiteral (kind : Literal) (last : Option Char) : Scanner := ⟨.inside kind, false, last⟩

theorem reads_content (kind : Literal) (last : Option Char) {part : List Char}
    (hback : '\\' ∉ part) (hdelimiter : kind.delimiter ∉ part) :
    (atLiteral kind last).Consumes part (contentRow part)
      (atLiteral kind (part.foldl significant last)) := by
  induction part generalizing last with
  | nil => exact .nil _
  | cons c part ih =>
      simp only [List.mem_cons, not_or] at hback hdelimiter
      refine .cons (fun rest => ?_) (ih _ hback.2 hdelimiter.2)
      simp [step, atLiteral, Ne.symm hback.1, Ne.symm hdelimiter.1]

def behindLiteral (kind : Literal) (rest : List Char) : Scanner :=
  ⟨kind.modeAfter rest, false, some kind.delimiter⟩

theorem read_literal {kind : Literal} {last : Option Char}
    (hopened : Literal.openedBy? last kind.delimiter = some kind) {part : List Char}
    (hback : '\\' ∉ part) (hdelimiter : kind.delimiter ∉ part) (rest : List Char) :
    (atCode last).paint (kind.delimiter :: (part ++ kind.delimiter :: rest)) =
        literalRow kind part ++ (behindLiteral kind rest).paint rest ∧
      (atCode last).finish (kind.delimiter :: (part ++ kind.delimiter :: rest)) =
        (behindLiteral kind rest).finish rest := by
  have hne : kind.delimiter ≠ '\\' := by cases kind <;> decide
  have hopen (rest : List Char) : (atCode last).step kind.delimiter rest =
      (.opening, atLiteral kind (some kind.delimiter)) := by
    simp [step, atCode, atLiteral, hne, hopened]
  have hclose (last : Option Char) : (atLiteral kind last).step kind.delimiter rest =
      (.closing, behindLiteral kind rest) := by
    simp [step, atLiteral, behindLiteral, hne]
  obtain ⟨hpaint, hfinish⟩ := reads_content kind (some kind.delimiter) hback hdelimiter
    (kind.delimiter :: rest)
  rw [paint, finish, hopen, hpaint, hfinish, paint, finish, hclose]
  exact ⟨by simp [literalRow], rfl⟩

end Scanner

end OpalRepair.Query
