import Mathlib
import OpalRepair.Proofs.Scanning

/-!
# Code and literals

What the role of a character says about its neighbours.  Code goes on until a quote or a slash, and
a literal until its delimiter.
-/

namespace OpalRepair.Query

open Text

namespace Scanner

/-! ## Behind code -/

theorem mode_of_not_isLiteral {s : Scanner} {c : Char} {rest : List Char}
    (h : (s.step c rest).1.isLiteral = false) : (s.step c rest).2.mode = .code := by
  cases hmode : s.mode with
  | flags more => simp [step, hmode, Role.isLiteral] at h
  | inside literal =>
      simp only [step, hmode] at h
      split_ifs at h <;> simp [Role.isLiteral] at h
  | code =>
      cases hopened : Literal.openedBy? s.last c <;> simp only [step, hmode, hopened] at h ⊢
      · split_ifs <;> rfl
      · split_ifs at h ⊢ <;> first | rfl | simp [Role.isLiteral] at h

theorem not_isLiteral_of_code {s : Scanner} (hmode : s.mode = .code) {c : Char}
    (hc : c ≠ '"' ∧ c ≠ '\'' ∧ c ≠ '/') (rest : List Char) :
    (s.step c rest).1.isLiteral = false := by
  have hopened : Literal.openedBy? s.last c = none := by
    simp [Literal.openedBy?, hc]
  simp only [step, hmode, hopened]
  split_ifs <;> rfl

theorem paint_code {s : Scanner} (hmode : s.mode = .code) {part after : List Cell}
    {query : List Char} (hpaint : s.paint query = part ++ after)
    (hpart : ∀ cell ∈ part, cell.char ≠ '"' ∧ cell.char ≠ '\'' ∧ cell.char ≠ '/') :
    ∀ cell ∈ part, cell.isLiteral = false := by
  induction part generalizing s query with
  | nil => simp
  | cons cell part ih =>
      cases query with
      | nil => simp [paint] at hpaint
      | cons c rest =>
          rw [paint, List.cons_append, List.cons.injEq] at hpaint
          obtain ⟨rfl, hpaint⟩ := hpaint
          have hcode := not_isLiteral_of_code hmode (hpart _ List.mem_cons_self) rest
          simp only [List.mem_cons]
          rintro other (rfl | hother)
          · exact hcode
          · exact ih (mode_of_not_isLiteral hcode) hpaint (fun x hx => hpart x (List.mem_cons_of_mem _ hx))
              other hother

theorem paint_behind_code {s : Scanner} {query : List Char} {before part after : List Cell}
    {cell : Cell} (hpaint : s.paint query = before ++ cell :: (part ++ after))
    (hcell : cell.isLiteral = false)
    (hpart : ∀ cell ∈ part, cell.char ≠ '"' ∧ cell.char ≠ '\'' ∧ cell.char ≠ '/') :
    ∀ cell ∈ part, cell.isLiteral = false := by
  induction before generalizing s query with
  | nil =>
      cases query with
      | nil => simp [paint] at hpaint
      | cons c rest =>
          rw [paint, List.nil_append, List.cons.injEq] at hpaint
          obtain ⟨rfl, hpaint⟩ := hpaint
          exact paint_code (mode_of_not_isLiteral hcell) hpaint hpart
  | cons first before ih =>
      cases query with
      | nil => simp [paint] at hpaint
      | cons c rest =>
          rw [paint, List.cons_append, List.cons.injEq] at hpaint
          exact ih hpaint.2

/-! ## The state at a cell -/

def FlagsAhead (s : Scanner) (rest : List Char) : Prop :=
  ∀ more, s.mode = .flags more → more < (rest.takeWhile isRegexFlag).length

theorem regexFlagCount_le (rest : List Char) :
    regexFlagCount rest ≤ (rest.takeWhile isRegexFlag).length := by
  rw [regexFlagCount]
  split
  · rename_i hflags
    induction rest with
    | nil => exact Nat.le_refl _
    | cons c rest ih =>
        by_cases hc : isNameChar c = true
        · simp only [List.takeWhile_cons, hc, if_true, List.all_cons, Bool.and_eq_true] at hflags ⊢
          simpa [hflags.1] using ih hflags.2
        · simp [hc]
  · exact Nat.zero_le _

theorem FlagsAhead.step {s : Scanner} {c : Char} {rest : List Char}
    (h : s.FlagsAhead (c :: rest)) : (s.step c rest).2.FlagsAhead rest := by
  have hbefore (k : Nat) (hk : k ≤ (rest.takeWhile isRegexFlag).length) :
      ∀ more, Mode.beforeFlags k = .flags more → more < (rest.takeWhile isRegexFlag).length := by
    intro more hmore
    cases k with
    | zero => simp [Mode.beforeFlags] at hmore
    | succ k =>
        obtain rfl : k = more := by simpa [Mode.beforeFlags] using hmore
        exact hk
  intro more hmore
  cases hmode : s.mode with
  | flags ahead =>
      have hahead := h ahead hmode
      simp only [Scanner.step, hmode] at hmore
      refine hbefore ahead ?_ more hmore
      rw [List.takeWhile_cons] at hahead
      split at hahead
      · rw [List.length_cons] at hahead
        omega
      · simp at hahead
  | code =>
      cases hopened : Literal.openedBy? s.last c <;> simp only [Scanner.step, hmode, hopened] at hmore <;>
        split_ifs at hmore
  | inside literal =>
      simp only [Scanner.step, hmode] at hmore
      split_ifs at hmore
      cases literal with
      | regex => exact hbefore _ (regexFlagCount_le rest) more hmore
      | double | single => simp [Literal.modeAfter] at hmore

theorem exists_step_of_paint {s : Scanner} {query : List Char} {before after : List Cell}
    {cell : Cell} (hs : s.FlagsAhead query) (hpaint : s.paint query = before ++ cell :: after) :
    ∃ t : Scanner, t.FlagsAhead (cell.char :: text after) ∧
      cell.role = (t.step cell.char (text after)).1 ∧
      after = (t.step cell.char (text after)).2.paint (text after) := by
  induction before generalizing s query with
  | nil =>
      cases query with
      | nil => simp [paint] at hpaint
      | cons c rest =>
          rw [paint, List.nil_append, List.cons.injEq] at hpaint
          obtain ⟨rfl, rfl⟩ := hpaint
          exact ⟨s, by simpa using hs, by simp, by simp⟩
  | cons first before ih =>
      cases query with
      | nil => simp [paint] at hpaint
      | cons c rest =>
          rw [paint, List.cons_append, List.cons.injEq] at hpaint
          exact ih hs.step hpaint.2

end Scanner

theorem exists_step {query : List Char} {before after : List Cell} {cell : Cell}
    (hcells : cells query = before ++ cell :: after) :
    ∃ s : Scanner, s.FlagsAhead (cell.char :: text after) ∧
      cell.role = (s.step cell.char (text after)).1 ∧
      after = (s.step cell.char (text after)).2.paint (text after) :=
  Scanner.exists_step_of_paint (fun more h => by simp at h) hcells

/-! ## Plain characters -/

def Plain (c : Char) : Prop := c ≠ '"' ∧ c ≠ '\'' ∧ c ≠ '/' ∧ c ≠ '\\'

namespace Scanner

theorem mode_of_code {s : Scanner} {c : Char} {rest : List Char}
    (h : (s.step c rest).1.isLiteral = false) : s.mode = .code := by
  cases hmode : s.mode with
  | code => rfl
  | flags more => simp [step, hmode, Role.isLiteral] at h
  | inside literal =>
      simp only [step, hmode] at h
      split_ifs at h <;> simp [Role.isLiteral] at h

theorem step_plain {s : Scanner} (hmode : s.mode = .code) {c : Char} (hc : Plain c)
    (rest : List Char) :
    (s.step c rest).1.isLiteral = false ∧ (s.step c rest).2.mode = .code ∧
      (s.step c rest).2.escaped = false := by
  obtain ⟨hdouble, hsingle, hslash, hback⟩ := hc
  have hopened : Literal.openedBy? s.last c = none := by
    simp [Literal.openedBy?, hdouble, hsingle, hslash]
  simp only [step, hmode, hopened, hback, if_false]
  split_ifs with hescaped <;> simp [Role.isLiteral, hescaped]

theorem paint_plain {s : Scanner} (hmode : s.mode = .code) (hescaped : s.escaped = false)
    {query : List Char} {part after : List Cell} (hpaint : s.paint query = part ++ after)
    (hpart : ∀ cell ∈ part, Plain cell.char) :
    ∃ t : Scanner, t.mode = .code ∧ t.escaped = false ∧ after = t.paint (text after) := by
  induction part generalizing s query with
  | nil => exact ⟨s, hmode, hescaped, by rw [← List.nil_append after, ← hpaint]; simp⟩
  | cons cell part ih =>
      cases query with
      | nil => simp [paint] at hpaint
      | cons c rest =>
          rw [paint, List.cons_append, List.cons.injEq] at hpaint
          obtain ⟨rfl, hpaint⟩ := hpaint
          obtain ⟨-, hmode, hescaped⟩ := step_plain hmode (hpart _ List.mem_cons_self) rest
          exact ih hmode hescaped hpaint fun x hx => hpart x (List.mem_cons_of_mem _ hx)

theorem step_quote {s : Scanner} (hmode : s.mode = .code) (hescaped : s.escaped = false)
    {quote : Char} (hquote : quote = '"' ∨ quote = '\'') (rest : List Char) :
    ∃ literal, literal.delimiter = quote ∧ (s.step quote rest).1 = .opening ∧
      (s.step quote rest).2.mode = .inside literal := by
  rcases hquote with rfl | rfl
  · exact ⟨.double, rfl, by simp [step, hmode, hescaped, Literal.openedBy?],
      by simp [step, hmode, hescaped, Literal.openedBy?]⟩
  · exact ⟨.single, rfl, by simp [step, hmode, hescaped, Literal.openedBy?],
      by simp [step, hmode, hescaped, Literal.openedBy?]⟩

end Scanner

/-! ## Inside literals -/

namespace Scanner

theorem step_inside {s : Scanner} {literal : Literal} (hmode : s.mode = .inside literal) {c : Char}
    (hc : c ≠ literal.delimiter) (rest : List Char) :
    (s.step c rest).1 = .content ∧ (s.step c rest).2.mode = .inside literal := by
  simp only [step, hmode, hc, if_false]
  split_ifs <;> exact ⟨rfl, rfl⟩

theorem paint_inside {s : Scanner} {literal : Literal} (hmode : s.mode = .inside literal)
    {query : List Char} {part after : List Cell} (hpaint : s.paint query = part ++ after)
    (hpart : ∀ cell ∈ part, cell.char ≠ literal.delimiter) :
    (∀ cell ∈ part, cell.role = .content) ∧
      ∃ t : Scanner, t.mode = .inside literal ∧ after = t.paint (text after) := by
  induction part generalizing s query with
  | nil => exact ⟨by simp, s, hmode, by rw [← List.nil_append after, ← hpaint]; simp⟩
  | cons cell part ih =>
      cases query with
      | nil => simp [paint] at hpaint
      | cons c rest =>
          rw [paint, List.cons_append, List.cons.injEq] at hpaint
          obtain ⟨rfl, hpaint⟩ := hpaint
          obtain ⟨hrole, hinside⟩ := step_inside hmode (hpart _ List.mem_cons_self) rest
          obtain ⟨hroles, hafter⟩ :=
            ih hinside hpaint fun x hx => hpart x (List.mem_cons_of_mem _ hx)
          refine ⟨?_, hafter⟩
          simp only [List.mem_cons]
          rintro other (rfl | hother)
          · exact hrole
          · exact hroles other hother

theorem isLiteral_of_inside {s : Scanner} {literal : Literal} (hmode : s.mode = .inside literal)
    (c : Char) (rest : List Char) : (s.step c rest).1.isLiteral = true := by
  simp only [step, hmode]
  split_ifs <;> rfl

theorem mode_of_isLiteral {s : Scanner} {c : Char} {rest : List Char} (hs : s.FlagsAhead (c :: rest))
    (hflag : isRegexFlag c = false) (hc : c ≠ '"' ∧ c ≠ '\'' ∧ c ≠ '/')
    (h : (s.step c rest).1.isLiteral = true) :
    ∃ literal, (s.step c rest).2.mode = .inside literal := by
  cases hmode : s.mode with
  | flags more =>
      have := hs more hmode
      simp [hflag] at this
  | code => simp [not_isLiteral_of_code hmode hc rest] at h
  | inside literal =>
      refine ⟨literal, (step_inside hmode ?_ rest).2⟩
      cases literal <;> simp [Literal.delimiter, hc]

end Scanner

section Surroundings

variable {query : List Char} {before after : List Cell} {cell : Cell}

theorem plain_of_isBlank {c : Char} (h : isBlank c = true) : Plain c := by
  refine ⟨?_, ?_, ?_, ?_⟩ <;> rintro rfl <;> revert h <;> decide

theorem isLiteral_of_blanks_behind {blanks : List Cell} {next : Cell}
    (hcells : cells query = before ++ cell :: (blanks ++ next :: after)) (hcell : cell.char = '(')
    (hblanks : ∀ blank ∈ blanks, isBlank blank.char = true) (hnext : next.isLiteral = false) :
    cell.isLiteral = false := by
  by_contra hliteral
  obtain ⟨s, hahead, hrole, hafter⟩ := exists_step hcells
  have hs : (s.step cell.char (text (blanks ++ next :: after))).1.isLiteral = true := by
    rw [← hrole]
    simpa [Cell.isLiteral] using hliteral
  rw [hcell] at hahead hs hafter
  obtain ⟨literal, hmode⟩ := Scanner.mode_of_isLiteral hahead (by decide) (by decide) hs
  have hdelimiter : ∀ blank ∈ blanks, blank.char ≠ literal.delimiter := by
    intro blank hblank
    obtain ⟨hdouble, hsingle, hslash, -⟩ := plain_of_isBlank (hblanks blank hblank)
    cases literal <;> simpa [Literal.delimiter]
  obtain ⟨-, t, ht, hpaint⟩ := Scanner.paint_inside hmode hafter.symm hdelimiter
  rw [text_cons, Scanner.paint, List.cons.injEq] at hpaint
  have hbehind := Scanner.isLiteral_of_inside ht next.char (text after)
  rw [Cell.isLiteral, hpaint.1, hbehind] at hnext
  simp at hnext

theorem isSeparator_of_quoted {blanks name : List Cell} {quote : Cell}
    (hcells : cells query = before ++ cell :: (blanks ++ quote :: (name ++ after)))
    (hcell : cell.isCode '(' = true) (hblanks : ∀ blank ∈ blanks, isBlank blank.char = true)
    (hquote : quote.char = '"' ∨ quote.char = '\'') (hname : ∀ c ∈ name, c.char ≠ quote.char) :
    ∀ c ∈ name, c.isSeparator = false := by
  obtain ⟨s, -, hrole, hafter⟩ := exists_step hcells
  obtain ⟨hchar, hliteral⟩ : cell.char = '(' ∧ cell.isLiteral = false := by
    simpa [Cell.isCode] using hcell
  have hmode : s.mode = .code := Scanner.mode_of_code (by rw [← hrole]; exact hliteral)
  obtain ⟨-, hmode', hescaped⟩ := Scanner.step_plain hmode
    (show Plain cell.char by rw [hchar]; simp [Plain]) (text (blanks ++ quote :: (name ++ after)))
  obtain ⟨t, htmode, htescaped, hpaint⟩ := Scanner.paint_plain hmode' hescaped hafter.symm
    fun blank hblank => plain_of_isBlank (hblanks blank hblank)
  rw [text_cons, Scanner.paint, List.cons.injEq] at hpaint
  obtain ⟨literal, hdelimiter, -, hinside⟩ :=
    Scanner.step_quote htmode htescaped hquote (text (name ++ after))
  obtain ⟨hcontent, -⟩ := Scanner.paint_inside hinside hpaint.2.symm
    fun c hc => by rw [hdelimiter]; exact hname c hc
  intro c hc
  simp [Cell.isSeparator, hcontent c hc]

end Surroundings

end OpalRepair.Query
