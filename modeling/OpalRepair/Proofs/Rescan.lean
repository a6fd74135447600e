import Mathlib
import OpalRepair.Proofs.Characters
import OpalRepair.Proofs.Join

/-!
# Reading mended queries

A mended query is made of parts of the old query and of new parts.  New parts start with a solid
character, which is read in one way from code.  Old parts are read as before if the scanner comes
to them in the same state and finds the same name behind them.
-/

namespace OpalRepair.Query

open Text

/-! ## New parts -/

instance : DecidablePred Plain := fun c => inferInstanceAs (Decidable (c ≠ '"' ∧ _))

def Solid (c : Char) : Prop := Plain c ∧ isBlank c = false ∧ c ≠ '|'

instance : DecidablePred Solid := fun c => inferInstanceAs (Decidable (Plain c ∧ _))

theorem solid_of_isNameChar {c : Char} (h : isNameChar c = true) : Solid c := by
  refine ⟨⟨?_, ?_, ?_, ?_⟩, ?_, ?_⟩
  · rintro rfl; revert h; decide
  · rintro rfl; revert h; decide
  · rintro rfl; revert h; decide
  · rintro rfl; revert h; decide
  · exact isBlank_of_isNameChar h
  · rintro rfl; revert h; decide

theorem plain_of_name {name : List Char} (h : ∀ c ∈ name, isNameChar c = true) :
    ∀ c ∈ name, Plain c ∧ c ≠ '|' := fun c hc =>
  ⟨(solid_of_isNameChar (h c hc)).1, (solid_of_isNameChar (h c hc)).2.2⟩

def special : List Char :=
  ['"', '\'', '/', '\\', '|', '(', ')', '[', ']', '\x7b', '\x7d']

theorem bland_of_class {p : Char → Bool} (hp : special.any p = false) {c : Char} (h : p c = true) :
    c ∉ special :=
  fun hc => List.any_eq_false.mp hp c hc h

def isBland (text : List Char) : Bool := text.all (!special.contains ·)

theorem bland_of_isBland {text : List Char} (h : isBland text = true) : ∀ c ∈ text, c ∉ special := by
  intro c hc
  simpa using List.all_eq_true.mp h c hc

theorem bland_of_isBlank {c : Char} (h : isBlank c = true) : c ∉ special :=
  bland_of_class rfl h

theorem bland_of_isNameChar {c : Char} (h : isNameChar c = true) : c ∉ special :=
  bland_of_class rfl h

theorem bland_of_isDecimalDigit {c : Char} (h : isDecimalDigit c = true) : c ∉ special :=
  bland_of_class rfl h

theorem plain_of_bland {c : Char} (h : c ∉ special) : Plain c ∧ c ≠ '|' := by
  simp only [special, List.mem_cons, not_or] at h
  exact ⟨⟨h.1, h.2.1, h.2.2.1, h.2.2.2.1⟩, h.2.2.2.2.1⟩

namespace Scanner

theorem step_solid {s : Scanner} (hmode : s.mode = .code) {c : Char} (hc : Solid c)
    (rest : List Char) : s.step c rest = (.code, atCode (some c)) := by
  obtain ⟨mode, escaped, last⟩ := s
  obtain ⟨⟨hdouble, hsingle, hslash, hback⟩, hblank, hpipe⟩ := hc
  obtain rfl : mode = .code := hmode
  cases escaped <;>
    simp [step, atCode, Literal.openedBy?, hdouble, hsingle, hslash, hback, hpipe, significant, hblank]

/-- From code, `part` is read as `row` in one way, wherever it stands. -/
def Settles (part : List Char) (row : List Cell) (last : Option Char) : Prop :=
  ∀ s : Scanner, s.mode = .code → ∀ rest,
    s.paint (part ++ rest) = row ++ (atCode last).paint rest

theorem Settles.append {a b : List Char} {rowA rowB : List Cell} {last last' : Option Char}
    (ha : Settles a rowA last) (hb : Settles b rowB last') :
    Settles (a ++ b) (rowA ++ rowB) last' := by
  intro s hs rest
  rw [List.append_assoc, ha s hs, hb (atCode last) rfl, List.append_assoc]

theorem Settles.consumes {a b : List Char} {rowA rowB : List Cell} {last last' : Option Char}
    (ha : Settles a rowA last) (hb : (atCode last).Consumes b rowB (atCode last')) :
    Settles (a ++ b) (rowA ++ rowB) last' := by
  intro s hs rest
  rw [List.append_assoc, ha s hs, (hb rest).1, List.append_assoc]

theorem settles_code {c : Char} {part : List Char} (hc : Solid c)
    (hpart : ∀ d ∈ part, Plain d ∧ d ≠ '|') :
    Settles (c :: part) (codeRow (c :: part)) (part.foldl significant (some c)) := by
  intro s hs rest
  rw [List.cons_append, paint, step_solid hs hc, (reads_code (some c) hpart rest).1]
  rfl

theorem settles_concat {c d : Char} {part : List Char} (hc : Solid c)
    (hpart : ∀ e ∈ part ++ [d], Plain e ∧ e ≠ '|') (hd : isBlank d = false) :
    Settles (c :: (part ++ [d])) (codeRow (c :: (part ++ [d]))) (some d) := by
  have hsettles := settles_code hc hpart
  rwa [List.foldl_append, List.foldl_cons, List.foldl_nil, significant, if_neg (by simp [hd])]
    at hsettles

theorem foldl_significant {part : List Char} (hpart : ∀ c ∈ part, Solid c) (last : Option Char) :
    part.foldl significant last = part.getLast?.or last := by
  induction part generalizing last with
  | nil => rfl
  | cons c part ih =>
      obtain ⟨hc, hpart⟩ := List.forall_mem_cons.mp hpart
      rw [List.foldl_cons, ih hpart, significant, if_neg (by simp [hc.2.1]), List.getLast?_cons]
      cases part.getLast? <;> rfl

theorem read_solid {part : List Char} (hpart : ∀ c ∈ part, Solid c) (hne : part ≠ []) {s : Scanner}
    (hs : s.mode = .code) (rest : List Char) :
    s.paint (part ++ rest) = codeRow part ++ (atCode part.getLast?).paint rest ∧
      s.finish (part ++ rest) = (atCode part.getLast?).finish rest := by
  obtain ⟨c, part, rfl⟩ := List.exists_cons_of_ne_nil hne
  obtain ⟨hc, hpart⟩ := List.forall_mem_cons.mp hpart
  have hlast : part.foldl significant (some c) = (c :: part).getLast? := by
    rw [foldl_significant hpart, List.getLast?_cons]
    cases part.getLast? <;> rfl
  obtain ⟨hpaint, hfinish⟩ :=
    reads_code (some c) (fun d hd => ⟨(hpart d hd).1, (hpart d hd).2.2⟩) rest
  rw [List.cons_append, paint, finish, step_solid hs hc, hpaint, hfinish, hlast]
  exact ⟨rfl, rfl⟩

theorem opensRegex_of_name {c : Char} {name : List Char} (hc : isNameChar c = true)
    (hname : ∀ d ∈ name, isNameChar d = true) :
    opensRegex (name.foldl significant (some c)) = false := by
  induction name generalizing c with
  | nil =>
      simp only [List.foldl_nil, opensRegex, Option.all_some, Bool.or_eq_false_iff, beq_eq_false_iff_ne]
      refine ⟨⟨⟨?_, ?_⟩, ?_⟩, ?_⟩ <;> rintro rfl <;> revert hc <;> decide
  | cons d name ih =>
      have hd := hname d (by simp)
      rw [List.foldl_cons, significant, if_neg (by simp [(solid_of_isNameChar hd).2.1])]
      exact ih hd fun e he => hname e (by simp [he])

theorem settles_name {name : List Char} (hne : name ≠ [])
    (hname : ∀ c ∈ name, isNameChar c = true) :
    ∃ last, opensRegex last = false ∧ Settles name (codeRow name) last := by
  obtain ⟨c, name, rfl⟩ := List.exists_cons_of_ne_nil hne
  have hrest : ∀ d ∈ name, isNameChar d = true := fun d hd => hname d (by simp [hd])
  refine ⟨_, opensRegex_of_name (hname c (by simp)) hrest,
    settles_code (solid_of_isNameChar (hname c (by simp))) fun d hd => ?_⟩
  exact plain_of_name hrest d hd

theorem consumes_gapRow (last : Option Char) :
    (atCode last).Consumes " | ".toList gapRow (atCode (some '|')) :=
  .cons (fun _ => rfl) (.cons (fun _ => rfl) (.cons (fun _ => rfl) (.nil _)))

/-! ## Old parts -/

def Paints (s : Scanner) (row : List Cell) : Prop := s.paint (text row) = row

theorem paints_append {s : Scanner} {a b : List Cell} :
    s.Paints (a ++ b) ↔
      s.paintPart (text b) (text a) = a ∧ (s.reach (text b) (text a)).Paints b := by
  rw [Paints, text_append, paint_append]
  constructor
  · intro h
    exact List.append_inj h (by simp [text])
  · rintro ⟨ha, hb⟩
    rw [ha, hb]

theorem paints_cons {s : Scanner} {cell : Cell} {row : List Cell} :
    s.Paints (cell :: row) ↔
      (s.step cell.char (text row)).1 = cell.role ∧ (s.step cell.char (text row)).2.Paints row := by
  rw [Paints, text_cons, paint, List.cons.injEq]
  refine and_congr_left fun _ => ⟨fun h => congrArg Cell.role h, fun h => ?_⟩
  rw [h]

theorem Heeds.role {s : Scanner} {c : Char} (h : s.Heeds c) (rest : List Char) :
    (s.step c rest).1 = .closing := by
  obtain ⟨hmode, hescaped, rfl⟩ := h
  simp [step, hmode, hescaped, Literal.delimiter]

theorem heeds_of_closing {s : Scanner} {rest : List Char} (h : (s.step '/' rest).1 = .closing) :
    s.Heeds '/' := by
  obtain ⟨mode, escaped, last⟩ := s
  cases mode with
  | flags more => simp [step] at h
  | code =>
      cases hopened : Literal.openedBy? last '/' <;> simp only [step, hopened] at h <;>
        split_ifs at h
  | inside literal =>
      cases escaped <;> cases literal <;> simp [step, Literal.delimiter] at h
      exact ⟨rfl, rfl, rfl⟩

theorem Heeds.mode_step {s : Scanner} {c : Char} (h : s.Heeds c) (rest : List Char) :
    (s.step c rest).2.mode = .beforeFlags (regexFlagCount rest) := by
  obtain ⟨hmode, hescaped, rfl⟩ := h
  simp [step, hmode, hescaped, Literal.delimiter, Literal.modeAfter]

theorem role_of_flags {s : Scanner} {more : Nat} (h : s.mode = .beforeFlags (more + 1)) {c : Char}
    {rest : List Char} : (s.step c rest).1 = .flag := by
  simp [step, h, Mode.beforeFlags]

section Paints

variable {s t : Scanner} {a b : List Cell} {cell : Cell}

theorem Paints.kept (h : s.Paints (a ++ b)) (halike : s.Alike t) {rest : List Char}
    (hname : (text b).takeWhile isNameChar = rest.takeWhile isNameChar) :
    t.paint (text a ++ rest) = a ++ (s.reach (text b) (text a)).paint rest := by
  obtain ⟨hpaint, hreach⟩ := halike.paintPart hname (text a)
  rw [paint_append, ← hpaint, (paints_append.mp h).1, hreach.paint]

theorem Paints.role (h : s.Paints (a ++ cell :: b)) :
    ((s.reach (text (cell :: b)) (text a)).step cell.char (text b)).1 = cell.role :=
  (paints_cons.mp (paints_append.mp h).2).1

theorem reach_concat (s : Scanner) (a b : List Cell) (cell : Cell) :
    s.reach (text b) (text (a ++ [cell])) =
      ((s.reach (text (cell :: b)) (text a)).step cell.char (text b)).2 := by
  rw [text_append, reach_append]
  rfl

theorem Paints.kept_firm (h : s.Paints (a ++ b)) (halike : s.Alike t)
    (hlast : ∀ cell ∈ a.getLast?, isNameChar cell.char = false ∧
      ¬ (cell.char = '/' ∧ cell.role = .closing)) (rest : List Char) :
    t.paint (text a ++ rest) = a ++ (s.reach (text b) (text a)).paint rest := by
  rcases a.eq_nil_or_concat' with rfl | ⟨front, cell, rfl⟩
  · exact (halike.paint rest).symm
  · obtain ⟨hname, hslash⟩ := hlast cell (by simp)
    rw [List.append_assoc, List.singleton_append] at h
    have hfront : t.paint (text front ++ cell.char :: rest) =
        front ++ (s.reach (text (cell :: b)) (text front)).paint (cell.char :: rest) :=
      h.kept halike (by simp [hname])
    have hrole := h.role
    have hflags : (s.reach (text (cell :: b)) (text front)).Heeds cell.char →
        regexFlagCount rest = regexFlagCount (text b) := fun hheeds =>
      absurd ⟨hheeds.2.2, by rw [← hrole, hheeds.role]⟩ hslash
    obtain ⟨hstep, hnext⟩ := (Alike.refl _).step cell.char hflags
    rw [reach_concat, text_append, List.append_assoc]
    change t.paint (text front ++ cell.char :: rest) = _
    rw [hfront, paint, hstep, hrole, hnext.paint]
    simp

theorem Paints.mode (h : s.Paints (a ++ cell :: b)) (hcell : cell.isLiteral = false) :
    (s.reach (text (cell :: b)) (text a)).mode = .code :=
  mode_of_code (by rw [h.role]; exact hcell)

theorem Paints.behind_solid (h : s.Paints (a ++ cell :: b)) (hcell : cell.isLiteral = false)
    (hsolid : Solid cell.char) : s.reach (text b) (text (a ++ [cell])) = atCode (some cell.char) := by
  rw [reach_concat, step_solid (h.mode hcell) hsolid]

theorem Paints.after_first (h : s.Paints (a ++ cell :: b)) (hcell : cell.isLiteral = false)
    (hsolid : Solid cell.char) : cell.role = .code ∧ (atCode (some cell.char)).Paints b := by
  have hrole := h.role
  have hstep := step_solid (h.mode hcell) hsolid (text b)
  rw [hstep] at hrole
  have hback := (paints_cons.mp (paints_append.mp h).2).2
  rw [hstep] at hback
  exact ⟨hrole.symm, hback⟩

theorem Paints.fresh (h : s.Paints (cell :: b)) (hcell : cell.isLiteral = false)
    (hsolid : Solid cell.char) (ht : t.mode = .code) :
    t.Paints (cell :: b) ∧ ∀ part rest,
      t.reach rest (cell.char :: part) = s.reach rest (cell.char :: part) := by
  have hs : s.mode = .code := Paints.mode (a := []) h hcell
  obtain ⟨hrole, hnext⟩ := paints_cons.mp h
  rw [step_solid hs hsolid] at hrole hnext
  refine ⟨paints_cons.mpr ?_, fun part rest => ?_⟩
  · rw [step_solid ht hsolid]
    exact ⟨hrole, hnext⟩
  · rw [reach_cons, reach_cons, step_solid ht hsolid, step_solid hs hsolid]

theorem Paints.settles {first last : Cell} {more : List Cell}
    (h : s.Paints (a ++ (first :: (more ++ [last]) ++ b))) (hfirst : first.isLiteral = false)
    (hfirstSolid : Solid first.char) (hlast : last.isLiteral = false) (hlastSolid : Solid last.char)
    (hname : isNameChar last.char = false) :
    Settles (text (first :: (more ++ [last]))) (first :: (more ++ [last])) (some last.char) := by
  obtain ⟨hrole, hmore⟩ := h.after_first hfirst hfirstSolid
  have hslash : ∀ cell ∈ (more ++ [last]).getLast?, isNameChar cell.char = false ∧
      ¬ (cell.char = '/' ∧ cell.role = .closing) := by
    intro cell hcell
    obtain rfl : last = cell := by simpa using hcell
    exact ⟨hname, fun hclosing => hlastSolid.1.2.2.1 hclosing.1⟩
  have hend : (atCode (some first.char)).reach (text b) (text (more ++ [last])) =
      atCode (some last.char) :=
    Paints.behind_solid (by simpa using hmore) hlast hlastSolid
  intro t ht rest
  rw [text_cons, List.cons_append, paint, step_solid ht hfirstSolid,
    hmore.kept_firm (Alike.refl _) hslash, hend, ← hrole]
  rfl

theorem Paints.not_closing (h : s.Paints (a ++ cell :: b)) (hchar : cell.char = '/')
    (hb : b.head?.any Cell.isLiteral = false) (hflags : 0 < regexFlagCount (text b)) :
    cell.role ≠ .closing := by
  intro hclosing
  obtain ⟨hrole, hnext⟩ := paints_cons.mp (paints_append.mp h).2
  rw [hchar] at hrole hnext
  have hmode := (heeds_of_closing (hrole.trans hclosing)).mode_step (text b)
  cases b with
  | nil => simp [regexFlagCount] at hflags
  | cons first b =>
      obtain ⟨more, hmore⟩ := Nat.exists_eq_succ_of_ne_zero (Nat.pos_iff_ne_zero.mp hflags)
      rw [hmore] at hmode
      have hfirst := (paints_cons.mp hnext).1
      rw [role_of_flags hmode] at hfirst
      simp [Cell.isLiteral, ← hfirst, Role.isLiteral] at hb

theorem FlagsAhead.reach {part rest : List Char} (h : s.FlagsAhead (part ++ rest)) :
    (s.reach rest part).FlagsAhead rest := by
  induction part generalizing s with
  | nil => exact h
  | cons c part ih => exact ih h.step

theorem FlagsAhead.reach_row (h : s.FlagsAhead (text (a ++ b))) :
    (s.reach (text b) (text a)).FlagsAhead (text b) := by
  rw [text_append] at h
  exact h.reach

theorem Paints.mode_of_blanks {blanks : List Cell} (h : s.Paints (blanks ++ cell :: b))
    (hahead : s.FlagsAhead (text (blanks ++ cell :: b)))
    (hblanks : ∀ blank ∈ blanks, isBlank blank.char = true) (hcell : cell.isLiteral = false)
    (hflag : isRegexFlag cell.char = false) : s.mode = .code := by
  cases hmode : s.mode with
  | code => rfl
  | flags more =>
      have hfirst : (text (blanks ++ cell :: b)).takeWhile isRegexFlag = [] := by
        cases blanks with
        | nil => simp [hflag]
        | cons blank blanks =>
            have hblank : isRegexFlag blank.char = false := by
              have := isNameChar_of_isBlank (hblanks blank (by simp))
              by_contra hcon
              simp only [isRegexFlag, Bool.not_eq_false, Bool.or_eq_true, beq_iff_eq] at hcon
              rcases hcon with ((hc | hc) | hc) | hc <;> rw [hc] at this <;> revert this <;> decide
            simp [hblank]
      have := hahead more hmode
      rw [hfirst] at this
      simp at this
  | inside literal =>
      have hdelimiter : ∀ blank ∈ blanks, blank.char ≠ literal.delimiter := by
        intro blank hblank
        obtain ⟨hdouble, hsingle, hslash, -⟩ := plain_of_isBlank (hblanks blank hblank)
        cases literal <;> simpa [Literal.delimiter]
      obtain ⟨-, t, ht, hpaint⟩ := paint_inside hmode h hdelimiter
      rw [text_cons, paint, List.cons.injEq] at hpaint
      rw [Cell.isLiteral, hpaint.1, isLiteral_of_inside ht] at hcell
      simp at hcell

/-! ## Gaps -/

theorem step_blank {s : Scanner} (hmode : s.mode = .code) {c : Char} (hc : isBlank c = true)
    (rest : List Char) : s.step c rest = (.code, atCode s.last) := by
  obtain ⟨mode, escaped, last⟩ := s
  obtain ⟨hdouble, hsingle, hslash, hback⟩ := plain_of_isBlank hc
  have hpipe : c ≠ '|' := by rintro rfl; revert hc; decide
  obtain rfl : mode = .code := hmode
  cases escaped <;>
    simp [step, atCode, Literal.openedBy?, hdouble, hsingle, hslash, hback, hpipe, significant, hc]

theorem step_of_separator {s : Scanner} {c : Char} {rest : List Char}
    (h : (s.step c rest).1 = .separator) :
    c = '|' ∧ ∀ last rest, (atCode last).step c rest = (.separator, atCode (some '|')) ∧
      s.step c rest = (.separator, atCode (some '|')) := by
  obtain rfl := step_separator h
  have hmode : s.mode = .code := mode_of_code (by rw [h]; rfl)
  have hescaped := escaped_of_separator h
  obtain ⟨mode, escaped, last⟩ := s
  obtain rfl : mode = .code := hmode
  obtain rfl : escaped = false := hescaped
  exact ⟨rfl, fun _ _ => ⟨rfl, rfl⟩⟩

theorem reach_blanks {blanks : List Char} (h : ∀ c ∈ blanks, isBlank c = true) (last : Option Char)
    (rest : List Char) : (atCode last).reach rest blanks = atCode last := by
  induction blanks with
  | nil => rfl
  | cons c blanks ih =>
      rw [reach_cons, step_blank rfl (h c (by simp))]
      exact ih fun d hd => h d (by simp [hd])

theorem Paints.gap {gap : List Cell} {last : Option Char} (h : (atCode last).Paints (gap ++ b))
    (hgap : ∀ cell ∈ gap, cell.isGap = true) :
    ∃ last', (atCode last).reach (text b) (text gap) = atCode last' ∧
      (last = some '|' → last' = some '|') ∧
      ∀ rest, (atCode last).paint (text gap ++ rest) = gap ++ (atCode last').paint rest := by
  induction gap generalizing last with
  | nil => exact ⟨last, rfl, id, fun _ => rfl⟩
  | cons cell gap ih =>
      obtain ⟨hrole, hnext⟩ := paints_cons.mp h
      have hrest := fun c hc => hgap c (List.mem_cons_of_mem _ hc)
      rcases Bool.or_eq_true_iff.mp (hgap cell List.mem_cons_self) with hseparator | hblank
      · have hseparator : cell.role = .separator := by simpa [Cell.isSeparator] using hseparator
        obtain ⟨hchar, hstep⟩ := step_of_separator (hrole.trans hseparator)
        rw [List.append_eq, (hstep none _).2] at hnext
        obtain ⟨last', hreach, hlast, hpaint⟩ := ih hnext hrest
        refine ⟨last', ?_, fun _ => hlast rfl, fun rest => ?_⟩
        · rw [text_cons, reach_cons, (hstep last _).1, hreach]
        · rw [text_cons, List.cons_append, paint, (hstep last _).1, hpaint, ← hseparator]
          rfl
      · have hstep := fun rest => step_blank (s := atCode last) rfl hblank rest
        rw [List.append_eq, hstep] at hrole hnext
        obtain ⟨last', hreach, hlast, hpaint⟩ := ih hnext hrest
        refine ⟨last', ?_, hlast, fun rest => ?_⟩
        · rw [text_cons, reach_cons, hstep, hreach]
        · rw [text_cons, List.cons_append, paint, hstep, hpaint, hrole]
          rfl

theorem Paints.gap_apart {gap : List Cell} (h : s.Paints (gap ++ b)) (hmode : s.mode = .code)
    (hgap : ∀ cell ∈ gap, cell.isGap = true) (hapart : gap.any Cell.isSeparator = true) :
    s.reach (text b) (text gap) = atCode (some '|') ∧
      ∀ last rest, (atCode last).paint (text gap ++ rest) =
        gap ++ (atCode (some '|')).paint rest := by
  induction gap generalizing s with
  | nil => simp at hapart
  | cons cell gap ih =>
      obtain ⟨hrole, hnext⟩ := paints_cons.mp h
      have hrest := fun c hc => hgap c (List.mem_cons_of_mem _ hc)
      cases hseparator : cell.isSeparator with
      | true =>
          have hseparator : cell.role = .separator := by simpa [Cell.isSeparator] using hseparator
          obtain ⟨hchar, hstep⟩ := step_of_separator (hrole.trans hseparator)
          rw [List.append_eq, (hstep none _).2] at hnext
          obtain ⟨last', hreach, hlast, hpaint⟩ := hnext.gap hrest
          obtain rfl := hlast rfl
          refine ⟨?_, fun last rest => ?_⟩
          · rw [text_cons, reach_cons, (hstep none _).2, hreach]
          · rw [text_cons, List.cons_append, paint, (hstep last _).1, hpaint, ← hseparator]
            rfl
      | false =>
          have hblank : isBlank cell.char = true := by
            simpa [Cell.isGap, hseparator] using hgap cell List.mem_cons_self
          have hstep := step_blank hmode hblank
          rw [List.append_eq, hstep] at hrole hnext
          obtain ⟨hreach, hpaint⟩ := ih hnext rfl hrest (by simpa [hseparator] using hapart)
          refine ⟨?_, fun last rest => ?_⟩
          · rw [text_cons, reach_cons, hstep, hreach]
          · rw [text_cons, List.cons_append, paint, step_blank rfl hblank, hrole, hpaint]
            rfl

end Paints

end Scanner

theorem paints_cells (query : List Char) : (Scanner.atCode none).Paints (cells query) := by
  rw [Scanner.Paints, text_cells]
  rfl

theorem cells_insert {query part rest : List Char} {before row partRow restRow : List Cell}
    {first : Cell} (hcells : cells query = before ++ first :: row)
    (hbefore : ∀ cell ∈ before.getLast?, cell.isGap = true) (hfirst : first.isLiteral = false)
    {last : Option Char} (hpart : Scanner.Settles part partRow last)
    (hrest : (Scanner.atCode last).paint rest = restRow) :
    cells (text before ++ (part ++ rest)) = before ++ (partRow ++ restRow) := by
  have hpaints := paints_cells query
  rw [hcells] at hpaints
  have hfirm : ∀ cell ∈ before.getLast?, isNameChar cell.char = false ∧
      ¬ (cell.char = '/' ∧ cell.role = .closing) := by
    intro cell hcell
    rcases Bool.or_eq_true_iff.mp (hbefore cell hcell) with hseparator | hblank
    · have hmem : cell ∈ cells query := by
        rw [hcells]
        exact List.mem_append_left _ (List.mem_of_getLast? hcell)
      rw [Scanner.char_of_isSeparator hmem hseparator]
      exact ⟨by decide, by simp⟩
    · exact ⟨isNameChar_of_isBlank hblank, fun h => (plain_of_isBlank hblank).2.2.1 h.1⟩
  change (Scanner.atCode none).paint _ = _
  rw [hpaints.kept_firm (Scanner.Alike.refl _) hfirm, hpart _ (hpaints.mode hfirst), hrest]

/-! ## Layouts of their own cells -/

theorem isSeparator_codeRow {part : List Char} : ∀ cell ∈ codeRow part, cell.isSeparator = false := by
  intro cell hcell
  obtain ⟨c, -, rfl⟩ := List.mem_map.mp hcell
  rfl

theorem ends_codeRow {part : List Char} (hne : part ≠ []) (hpart : ∀ c ∈ part, isBlank c = false) :
    (∃ cell ∈ (codeRow part).head?, cell.isGap = false) ∧
      ∃ cell ∈ (codeRow part).getLast?, cell.isGap = false := by
  have hgap (c : Char) (hc : c ∈ part) : Cell.isGap ⟨c, .code⟩ = false := by
    rw [Cell.isGap, hpart c hc]
    rfl
  refine ⟨⟨⟨part.head hne, .code⟩, ?_, hgap _ (List.head_mem hne)⟩,
    ⟨part.getLast hne, .code⟩, ?_, hgap _ (List.getLast_mem hne)⟩
  · simp [codeRow, List.head?_eq_some_head hne]
  · simp [codeRow, List.getLast?_eq_some_getLast hne]

theorem Stage.Trimmed.splice {stage : Stage} (h : stage.Trimmed) {front part new back : List Cell}
    (hbody : stage.body = front ++ (part ++ back))
    (hends : (∃ cell ∈ new.head?, cell.isGap = false) ∧ ∃ cell ∈ new.getLast?, cell.isGap = false)
    (hnew : ∀ cell ∈ new, cell.isSeparator = false) :
    Stage.Trimmed ⟨front ++ (new ++ back), stage.gap⟩ where
  head := by
    cases front with
    | nil =>
        obtain ⟨cell, hcell, hgap⟩ := hends.1
        exact ⟨cell, by simp [Option.mem_def.mp hcell], hgap⟩
    | cons first front =>
        obtain ⟨cell, hcell, hgap⟩ := h.head
        exact ⟨cell, by simpa [hbody] using hcell, hgap⟩
  last := by
    rcases back.eq_nil_or_concat' with rfl | ⟨start, last, rfl⟩
    · obtain ⟨cell, hcell, hgap⟩ := hends.2
      exact ⟨cell, by simp [Option.mem_def.mp hcell], hgap⟩
    · obtain ⟨cell, hcell, hgap⟩ := h.last
      exact ⟨cell, by simpa [hbody] using hcell, hgap⟩
  body := by
    have hold := h.body
    rw [hbody] at hold
    intro cell hcell
    rcases List.mem_append.mp hcell with hcell | hcell
    · exact hold cell (List.mem_append_left _ hcell)
    · rcases List.mem_append.mp hcell with hcell | hcell
      · exact hnew cell hcell
      · exact hold cell (List.mem_append_right _ (List.mem_append_right _ hcell))
  gap := h.gap

theorem Stage.Apart.insert {pre post : List Stage} {stage first second : Stage}
    (h : Stage.Apart (pre ++ stage :: post)) (hfirst : first.Trimmed)
    (hgap : first.gap.any Cell.isSeparator = true) (hsecond : second.Trimmed)
    (hsame : second.gap = stage.gap) : Stage.Apart (pre ++ first :: second :: post) := by
  induction pre with
  | nil =>
      obtain ⟨-, hapart, hrest⟩ := h
      exact ⟨hfirst, .inr hgap, hsecond, hsame ▸ hapart, hrest⟩
  | cons other pre ih =>
      obtain ⟨htrimmed, hapart, hrest⟩ := h
      exact ⟨htrimmed, .inr (hapart.resolve_left (by simp)), ih hrest⟩

namespace Layout

theorem ofCells_eq {lead : List Cell} {stages : List Stage}
    (hlead : ∀ cell ∈ lead, cell.isGap = true) (hstages : Stage.Apart stages) :
    ofCells (lead ++ stages.flatMap Stage.cells) = ⟨lead, stages⟩ := by
  have hfold : (stages.flatMap Stage.cells).foldr cons ⟨[], []⟩ = ⟨[], stages⟩ := by
    induction stages with
    | nil => rfl
    | cons stage stages ih =>
        obtain ⟨htrimmed, hapart, hrest⟩ := hstages
        have hblank {cell : Cell} (h : cell.isGap = false) : isBlank cell.char = false :=
          (Bool.or_eq_false_iff.mp h).2
        obtain ⟨first, hfirst, hfirstGap⟩ := htrimmed.head
        obtain ⟨last, hlast, hlastGap⟩ := htrimmed.last
        have hbody : ([] ++ stage.body ++ []).foldr cons ⟨stage.gap, stages⟩ =
            ⟨[], ⟨stage.body, [] ++ stage.gap⟩ :: stages⟩ :=
          foldr_cons_core (by simpa using htrimmed.body) (by simp) (by simp)
            ⟨first, hfirst, hblank hfirstGap⟩ ⟨last, hlast, hblank hlastGap⟩ hapart
        rw [List.flatMap_cons, List.foldr_append, ih hrest, Stage.cells, List.foldr_append,
          foldr_cons_blank htrimmed.gap]
        simpa using hbody
  rw [ofCells, List.foldr_append, hfold, foldr_cons_blank hlead, List.append_nil]

end Layout

end OpalRepair.Query
