import Mathlib
import OpalRepair.Pass.SortCall
import OpalRepair.Proofs.Rescan
import OpalRepair.Proofs.Template.Basic

/-!
# Paths around a literal

A path reads quoted keys by itself.  As long as there are no backslashes it reads them as the scanner
does, so it ends in front of a literal or passes over the whole of it.
-/

namespace OpalRepair

open Query Text

namespace Query

/-! ## Reading along with the scanner -/

section Steps

variable {s : Scanner} {c : Char}

theorem Scanner.step_double (hmode : s.mode = .code) (hescaped : s.escaped = false)
    (rest : List Char) :
    (s.step '"' rest).2.mode = .inside .double ∧ (s.step '"' rest).2.escaped = false := by
  simp [step, hmode, hescaped, Literal.openedBy?]

theorem Scanner.step_in_double (hmode : s.mode = .inside .double) (hescaped : s.escaped = false)
    (hc : c ≠ '\\') (rest : List Char) :
    (s.step c rest).2.mode = (if c = '"' then .code else .inside .double) ∧
      (s.step c rest).2.escaped = false := by
  by_cases hquote : c = '"'
  · simp [step, hmode, hescaped, hquote, Literal.delimiter, Literal.modeAfter]
  · simp [step, hmode, hescaped, hc, hquote, Literal.delimiter]

theorem Scanner.mode_of_opening {rest : List Char} (h : (s.step c rest).1 = .opening) :
    s.mode = .code := by
  cases hmode : s.mode with
  | code => rfl
  | flags more => simp [step, hmode] at h
  | inside literal =>
      simp only [step, hmode] at h
      split_ifs at h

theorem Scanner.mode_reach_plain (hmode : s.mode = .code) {part : List Char}
    (hpart : ∀ c ∈ part, Plain c) (rest : List Char) : (s.reach rest part).mode = .code := by
  induction part generalizing s with
  | nil => exact hmode
  | cons c part ih =>
      exact ih (step_plain hmode (hpart c (by simp)) _).2.1 fun d hd => hpart d (by simp [hd])

theorem Scanner.mode_reach_inside {kind : Literal} (hmode : s.mode = .inside kind) {part : List Char}
    (hpart : kind.delimiter ∉ part) (rest : List Char) : (s.reach rest part).mode = .inside kind := by
  induction part generalizing s with
  | nil => exact hmode
  | cons c part ih =>
      have hc : c ≠ kind.delimiter := fun heq => hpart (by simp [heq])
      exact ih (step_inside hmode hc _).2 fun hmem => hpart (by simp [hmem])

end Steps

/-! ## Paths -/

theorem pathTail_quoted {content : List Char} (h : '"' ∉ content) (rest : List Char) :
    pathTail .quoted (content ++ '"' :: rest) = content ++ '"' :: pathTail .closed rest := by
  induction content with
  | nil => simp [pathTail]
  | cons c content ih =>
      have hc : c ≠ '"' := fun heq => h (by simp [heq])
      rw [List.cons_append, pathTail, if_neg hc, ih fun hmem => h (by simp [hmem]), List.cons_append]

def startsAhead (kind : Literal) : List Char → Bool
  | [] => kind == .double
  | c :: _ => isNameStart c || c == '"'

section Paths

variable {kind : Literal} {front behind rest : List Char} {s : Scanner} {c : Char}

theorem startsSegment_between (hmode : s.mode = .code) (hescaped : s.escaped = false)
    (hend : (s.reach rest front).mode = .code) (behind content : List Char) :
    startsSegment (kind.between front behind content) = startsAhead kind front := by
  cases front with
  | nil =>
      cases kind <;>
        simp [Literal.between, startsSegment, startsAhead, Literal.delimiter, isNameStart]
  | cons c front =>
      rw [Literal.between, List.cons_append, startsSegment, startsAhead]
      congr 1
      by_cases hc : c = '"'
      · -- The quote opens a literal, which is closed before the other one.
        subst hc
        have hclosed : '"' ∈ front := by
          by_contra hopen
          have hinside := Scanner.mode_reach_inside (Scanner.step_double hmode hescaped (front ++ rest)).1
            hopen rest
          rw [Scanner.reach_cons, hinside] at hend
          simp at hend
        simp [hclosed]
      · simp [hc]

def EndsAround (kind : Literal) (front behind : List Char) (tail : List Char → List Char) : Prop :=
  (∃ path more, front = path ++ more ∧
      ∀ content, kind.delimiter ∉ content → tail content = path) ∨
    ∀ content, kind.delimiter ∉ content →
      tail content = kind.between front (pathTail .closed behind) content

theorem EndsAround.stop {tail : List Char → List Char}
    (h : ∀ content, kind.delimiter ∉ content → tail content = []) :
    EndsAround kind front behind tail := .inl ⟨[], front, rfl, h⟩

theorem EndsAround.cons {tail longer : List Char → List Char} (h : EndsAround kind front behind tail)
    (hlonger : ∀ content, kind.delimiter ∉ content → longer content = c :: tail content) :
    EndsAround kind (c :: front) behind longer := by
  rcases h with ⟨path, more, rfl, h⟩ | h
  · exact .inl ⟨c :: path, more, rfl, fun content hcontent => by
      rw [hlonger content hcontent, h content hcontent]⟩
  · exact .inr fun content hcontent => by
      rw [hlonger content hcontent, h content hcontent, Literal.between, Literal.between,
        List.cons_append]

def TailAround (kind : Literal) (front behind : List Char) (state : PathState) : Prop :=
  EndsAround kind front behind fun content => pathTail state (kind.between front behind content)

namespace TailAround

variable {state next : PathState}

theorem stop (h : ∀ text, pathTail state (c :: text) = []) :
    TailAround kind (c :: front) behind state :=
  EndsAround.stop fun _ _ => h _

theorem cons (h : TailAround kind front behind next)
    (htail : ∀ text, pathTail state (c :: text) = c :: pathTail next text) :
    TailAround kind (c :: front) behind state :=
  EndsAround.cons h fun _ _ => htail _

theorem segment (hmode : s.mode = .code) (hescaped : s.escaped = false)
    (hend : (s.reach rest front).mode = .code)
    (h : startsAhead kind front = true → TailAround kind front behind .dot)
    (htail : ∀ text, pathTail state ('.' :: text) =
      if startsSegment text = true then '.' :: pathTail .dot text else []) :
    TailAround kind ('.' :: front) behind state := by
  have hstarts (content : List Char) :
      startsSegment (kind.between front behind content) = startsAhead kind front :=
    startsSegment_between hmode hescaped hend behind content
  by_cases hahead : startsAhead kind front = true
  · refine EndsAround.cons (h hahead) fun content _ => ?_
    rw [show kind.between ('.' :: front) behind content = '.' :: kind.between front behind content
      from rfl, htail, hstarts, if_pos hahead]
  · refine EndsAround.stop fun content _ => ?_
    rw [show kind.between ('.' :: front) behind content = '.' :: kind.between front behind content
      from rfl, htail, hstarts, if_neg hahead]

theorem nil (hquoted : state ≠ .quoted) (hdot : state = .dot → startsAhead kind [] = true) :
    TailAround kind [] behind state := by
  cases state with
  | quoted => contradiction
  | name =>
      refine EndsAround.stop fun content _ => ?_
      cases kind <;> simp [Literal.between, Literal.delimiter, pathTail, isNameChar]
  | closed =>
      refine EndsAround.stop fun content _ => ?_
      cases kind <;> simp [Literal.between, Literal.delimiter, pathTail]
  | dot =>
      obtain rfl : kind = .double := by simpa [startsAhead] using hdot rfl
      refine .inr fun content hcontent => ?_
      have hquoted := pathTail_quoted hcontent behind
      simpa [Literal.between, Literal.delimiter, pathTail] using hquoted

end TailAround

theorem endsAround_pathTail (hback : '\\' ∉ front) {state : PathState}
    (hmode : s.mode = if state = .quoted then .inside .double else .code)
    (hescaped : s.escaped = false) (hdot : state = .dot → startsAhead kind front = true)
    (hend : (s.reach rest front).mode = .code) : TailAround kind front behind state := by
  -- The scanner stays in step with the path: it is in a string exactly inside a quoted key.
  induction front generalizing state s with
  | nil =>
      refine .nil (fun hquoted => ?_) hdot
      simp [hmode, hquoted] at hend
  | cons c front ih =>
      have hbackFront : '\\' ∉ front := fun hmem => hback (by simp [hmem])
      rw [Scanner.reach_cons] at hend
      have hdotted {state : PathState} (hcode : s.mode = .code) (hc : c = '.')
          (htail : ∀ text, pathTail state ('.' :: text) =
            if startsSegment text = true then '.' :: pathTail .dot text else []) :
          TailAround kind (c :: front) behind state := by
        subst hc
        obtain ⟨-, hnext, hfree⟩ := Scanner.step_plain hcode (c := '.') (by decide) (front ++ rest)
        exact .segment hnext hfree hend
          (fun hahead => ih hbackFront hnext hfree (fun _ => hahead) hend) htail
      have hnamed (hcode : s.mode = .code) (hname : isNameChar c = true) :
          TailAround kind front behind .name := by
        obtain ⟨-, hnext, hfree⟩ :=
          Scanner.step_plain hcode (solid_of_isNameChar hname).1 (front ++ rest)
        exact ih hbackFront hnext hfree (by simp) hend
      cases state with
      | name =>
          by_cases hname : isNameChar c = true
          · exact (hnamed hmode hname).cons fun text => by rw [pathTail, if_pos hname]
          · by_cases hc : c = '.'
            · exact hdotted hmode hc fun text => by simp [pathTail, isNameChar]
            · exact .stop fun text => by rw [pathTail, if_neg hname, if_neg fun h => hc h.1]
      | dot =>
          by_cases hc : c = '"'
          · subst hc
            obtain ⟨hnext, hfree⟩ := Scanner.step_double hmode hescaped (front ++ rest)
            have hquoted : TailAround kind front behind .quoted :=
              ih hbackFront hnext hfree (by simp) hend
            exact hquoted.cons fun text => by rw [pathTail, if_pos rfl]
          · have hstart : isNameStart c = true := by simpa [startsAhead, hc] using hdot rfl
            exact (hnamed hmode (isNameChar_of_isNameStart hstart)).cons fun text => by
              rw [pathTail, if_neg hc]
      | quoted =>
          have hnot : c ≠ '\\' := fun heq => hback (by simp [heq])
          obtain ⟨hnext, hfree⟩ := Scanner.step_in_double hmode hescaped hnot (front ++ rest)
          by_cases hc : c = '"'
          · rw [if_pos hc] at hnext
            have hclosed : TailAround kind front behind .closed :=
              ih hbackFront hnext hfree (by simp) hend
            exact hclosed.cons fun text => by rw [pathTail, if_pos hc]
          · rw [if_neg hc] at hnext
            have hquoted : TailAround kind front behind .quoted :=
              ih hbackFront hnext hfree (by simp) hend
            exact hquoted.cons fun text => by rw [pathTail, if_neg hc]
      | closed =>
          by_cases hc : c = '.'
          · exact hdotted hmode hc fun text => by simp [pathTail]
          · exact .stop fun text => by rw [pathTail, if_neg fun h => hc h.1]

/-- The path at the start of a text with a literal in it, if there is one, ends in front of the
literal or passes over it. -/
theorem path?_between (kind : Literal) (hback : '\\' ∉ front) (hmode : s.mode = .code)
    (hend : (s.reach rest front).mode = .code) (behind : List Char) :
    (∀ content, path? (kind.between front behind content) = none) ∨
      ∃ path, EndsAround kind front behind path ∧
        ∀ content, path? (kind.between front behind content) = some (path content) := by
  cases front with
  | nil =>
      left
      intro content
      cases kind <;> simp [Literal.between, Literal.delimiter, path?, isNameStart]
  | cons c front =>
      by_cases hstart : isNameStart c = true
      · right
        have hname := isNameChar_of_isNameStart hstart
        obtain ⟨-, hnext, hfree⟩ :=
          Scanner.step_plain hmode (solid_of_isNameChar hname).1 (front ++ rest)
        have htail : EndsAround kind front behind fun content =>
            pathTail .name (kind.between front behind content) :=
          endsAround_pathTail (fun hmem => hback (by simp [hmem])) hnext hfree (by simp) hend
        refine ⟨_, htail.cons fun content _ => rfl, fun content => ?_⟩
        rw [Literal.between, List.cons_append, path?, if_pos hstart]
        rfl
      · left
        intro content
        rw [Literal.between, List.cons_append, path?, if_neg hstart]

end Paths

end Query

end OpalRepair
