import Mathlib
import OpalRepair.Proofs.Scanning

/-!
# Tokens

The grammar of literals, told apart from the scanner: a query is a row of tokens, read from left
to right.  A token is a character of code, an escaped character of code, or a literal with all
that is inside it.  Only the last token can be cut short by the end of the query.
-/

namespace OpalRepair.Query

open Text

/-! ## The grammar -/

/-- One thing inside a literal: a character, or a backslash with the character it consumes. -/
inductive Glyph where
  | plain (c : Char)
  | escaped (c : Char)
  deriving DecidableEq, Repr

/-- How a literal ends.  It may be closed, or the query ends inside it, possibly right behind a
backslash. -/
inductive Ending where
  | closed (flags : List Char)
  | cut
  | cutEscape
  deriving DecidableEq, Repr

inductive Token where
  | plain (c : Char)
  | escape (c : Char)
  | loneBackslash
  | literal (kind : Literal) (inside : List Glyph) (ending : Ending)
  deriving DecidableEq, Repr

namespace Glyph

def text : Glyph → List Char
  | .plain c => [c]
  | .escaped c => ['\\', c]

def char : Glyph → Char
  | .plain c | .escaped c => c

def Fits (kind : Literal) : Glyph → Prop
  | .plain c => c ≠ '\\' ∧ c ≠ kind.delimiter
  | .escaped _ => True

end Glyph

namespace Ending

def text (kind : Literal) : Ending → List Char
  | .closed flags => kind.delimiter :: flags
  | .cut => []
  | .cutEscape => ['\\']

def isClosed : Ending → Bool
  | .closed _ => true
  | .cut | .cutEscape => false

/-- The flags that a regex takes from the text behind its closing delimiter: the longest name
there, provided that it is made of flag letters only. -/
def flagsIn (behind : List Char) : List Char :=
  if ∀ c ∈ behind.takeWhile isNameChar, c ∈ ['i', 'm', 's', 'U'] then
    behind.takeWhile isNameChar
  else []

def Fits (kind : Literal) (after : List Char) : Ending → Prop
  | .closed flags => flags = if kind = .regex then flagsIn (flags ++ after) else []
  | .cut | .cutEscape => after = []

end Ending

def RegexPosition (last : Option Char) : Prop :=
  ∀ c, last = some c → c ∈ ['~', '=', '(', ',']

namespace Token

def text : Token → List Char
  | .plain c => [c]
  | .escape c => ['\\', c]
  | .loneBackslash => ['\\']
  | .literal kind inside ending =>
    kind.delimiter :: inside.flatMap Glyph.text ++ ending.text kind

def consumed : Token → List Char
  | .plain c | .escape c => [c]
  | .loneBackslash => []
  | .literal kind inside (.closed flags) =>
    kind.delimiter :: inside.map Glyph.char ++ kind.delimiter :: flags
  | .literal kind inside _ => kind.delimiter :: inside.map Glyph.char

def lastFrom (last : Option Char) (token : Token) : Option Char :=
  (token.consumed.filter (!isBlank ·)).getLast?.or last

def isLiteral : Token → Bool
  | .literal .. => true
  | _ => false

def isComplete : Token → Bool
  | .plain _ | .escape _ => true
  | .loneBackslash => false
  | .literal _ _ ending => ending.isClosed

def Fits (last : Option Char) (after : List Char) : Token → Prop
  | .plain c => c ≠ '\\' ∧ c ≠ '"' ∧ c ≠ '\'' ∧ (c = '/' → ¬ RegexPosition last)
  | .escape _ => True
  | .loneBackslash => after = []
  | .literal kind inside ending =>
    (kind = .regex → RegexPosition last) ∧ (∀ glyph ∈ inside, glyph.Fits kind) ∧
      ending.Fits kind after

end Token

def tokenText (tokens : List Token) : List Char := tokens.flatMap Token.text

def Reads (last : Option Char) : List Token → Prop
  | [] => True
  | token :: rest => token.Fits last (tokenText rest) ∧ Reads (token.lastFrom last) rest

/-- The row of tokens is a reading of the query. -/
def Tokenizes (tokens : List Token) (query : List Char) : Prop :=
  tokenText tokens = query ∧ Reads none tokens

def tokenOffsets (p : Token → Bool) : Nat → List Token → List Nat
  | _, [] => []
  | offset, token :: rest =>
    let next := tokenOffsets p (offset + byteSize token.text) rest
    if p token then offset :: next else next

/-! ## Every query has one reading -/

theorem Literal.delimiter_ne_backslash (kind : Literal) : kind.delimiter ≠ '\\' := by
  cases kind <;> decide

theorem Ending.flagsIn_append_drop (behind : List Char) :
    flagsIn behind ++ behind.drop (flagsIn behind).length = behind := by
  have hprefix : flagsIn behind <+: behind := by
    unfold flagsIn
    split
    · exact List.takeWhile_prefix _
    · exact List.nil_prefix
  exact List.prefix_iff_eq_append.mp hprefix

theorem exists_inside (kind : Literal) : ∀ behind : List Char,
    ∃ (inside : List Glyph) (ending : Ending) (after : List Char),
      behind = inside.flatMap Glyph.text ++ (ending.text kind ++ after) ∧
        (∀ glyph ∈ inside, glyph.Fits kind) ∧ ending.Fits kind after
  | [] => ⟨[], .cut, [], by simp [Ending.text, Ending.Fits]⟩
  | c :: rest => by
    by_cases hescape : c = '\\'
    · subst hescape
      match rest with
      | [] => exact ⟨[], .cutEscape, [], by simp [Ending.text, Ending.Fits]⟩
      | d :: rest =>
        obtain ⟨inside, ending, after, rfl, hinside, hending⟩ := exists_inside kind rest
        refine ⟨.escaped d :: inside, ending, after, by simp [Glyph.text], ?_, hending⟩
        simpa [Glyph.Fits] using hinside
    · by_cases hclose : c = kind.delimiter
      · let flags := if kind = .regex then Ending.flagsIn rest else []
        have hflags : flags ++ rest.drop flags.length = rest := by
          by_cases hregex : kind = .regex
          · simpa [flags, hregex] using Ending.flagsIn_append_drop rest
          · simp [flags, hregex]
        refine ⟨[], .closed flags, rest.drop flags.length, ?_, by simp, ?_⟩
        · simp [Ending.text, hclose, hflags]
        · simp [Ending.Fits, hflags, flags]
      · obtain ⟨inside, ending, after, rfl, hinside, hending⟩ := exists_inside kind rest
        refine ⟨.plain c :: inside, ending, after, by simp [Glyph.text], ?_, hending⟩
        simpa [Glyph.Fits, hescape, hclose] using hinside

private theorem glyph_ne_ending {kind : Literal} {glyph : Glyph} {ending : Ending}
    {rest after : List Char} (hglyph : glyph.Fits kind) (hending : ending.Fits kind after) :
    glyph.text ++ rest ≠ ending.text kind ++ after := by
  have hback := kind.delimiter_ne_backslash
  cases glyph <;> cases ending <;>
    simp [Glyph.text, Ending.text, Glyph.Fits, Ending.Fits] at hglyph hending ⊢ <;> grind

private theorem glyph_unique {kind : Literal} {glyph glyph' : Glyph} {rest rest' : List Char}
    (htext : glyph.text ++ rest = glyph'.text ++ rest')
    (hglyph : glyph.Fits kind) (hglyph' : glyph'.Fits kind) : glyph = glyph' ∧ rest = rest' := by
  cases glyph <;> cases glyph' <;>
    simp [Glyph.text, Glyph.Fits] at htext hglyph hglyph' ⊢ <;> grind

private theorem ending_unique {kind : Literal} {ending ending' : Ending} {after after' : List Char}
    (htext : ending.text kind ++ after = ending'.text kind ++ after')
    (hending : ending.Fits kind after) (hending' : ending'.Fits kind after') :
    ending = ending' ∧ after = after' := by
  have hback := kind.delimiter_ne_backslash
  cases ending <;> cases ending' <;>
    simp [Ending.text, Ending.Fits] at htext hending hending' ⊢ <;>
    grind [List.append_cancel_left_eq]

theorem inside_unique {kind : Literal} {inside inside' : List Glyph} {ending ending' : Ending}
    {after after' : List Char}
    (htext : inside.flatMap Glyph.text ++ (ending.text kind ++ after) =
      inside'.flatMap Glyph.text ++ (ending'.text kind ++ after'))
    (hinside : ∀ glyph ∈ inside, glyph.Fits kind) (hending : ending.Fits kind after)
    (hinside' : ∀ glyph ∈ inside', glyph.Fits kind) (hending' : ending'.Fits kind after') :
    inside = inside' ∧ ending = ending' ∧ after = after' := by
  induction inside generalizing inside' with
  | nil =>
      cases inside' with
      | nil => simpa using ending_unique htext hending hending'
      | cons glyph rest =>
          simp only [List.flatMap_nil, List.nil_append, List.flatMap_cons,
            List.append_assoc] at htext
          exact absurd htext.symm (glyph_ne_ending (hinside' glyph (by simp)) hending)
  | cons glyph rest ih =>
      cases inside' with
      | nil =>
          simp only [List.flatMap_nil, List.nil_append, List.flatMap_cons,
            List.append_assoc] at htext
          exact absurd htext (glyph_ne_ending (hinside glyph (by simp)) hending')
      | cons glyph' rest' =>
          simp only [List.flatMap_cons, List.append_assoc] at htext
          obtain ⟨rfl, hrest⟩ := glyph_unique htext (hinside glyph (by simp))
            (hinside' glyph' (by simp))
          obtain ⟨rfl, rfl, rfl⟩ := ih hrest (fun g hg => hinside g (by simp [hg]))
            (fun g hg => hinside' g (by simp [hg]))
          exact ⟨rfl, rfl, rfl⟩

theorem exists_token (last : Option Char) {query : List Char} (hquery : query ≠ []) :
    ∃ (token : Token) (after : List Char),
      query = token.text ++ after ∧ token.Fits last after := by
  cases query with
  | nil => contradiction
  | cons c rest =>
      have hliteral (kind : Literal) (hc : c = kind.delimiter)
          (hposition : kind = .regex → RegexPosition last) :
          ∃ (token : Token) (after : List Char),
            c :: rest = token.text ++ after ∧ token.Fits last after := by
        obtain ⟨inside, ending, after, rfl, hinside, hending⟩ := exists_inside kind rest
        exact ⟨.literal kind inside ending, after, by simp [Token.text, hc],
          hposition, hinside, hending⟩
      by_cases hescape : c = '\\'
      · subst hescape
        cases rest with
        | nil => exact ⟨.loneBackslash, [], by simp [Token.text, Token.Fits]⟩
        | cons d rest => exact ⟨.escape d, rest, by simp [Token.text, Token.Fits]⟩
      · by_cases hdouble : c = '"'
        · exact hliteral .double hdouble (by simp)
        · by_cases hsingle : c = '\''
          · exact hliteral .single hsingle (by simp)
          · by_cases hregex : c = '/' ∧ RegexPosition last
            · exact hliteral .regex hregex.1 fun _ => hregex.2
            · exact ⟨.plain c, rest, by simp [Token.text], hescape, hdouble, hsingle,
                 fun hslash hposition => hregex ⟨hslash, hposition⟩⟩

private theorem literal_ne_plain {last : Option Char} {kind : Literal} {inside : List Glyph}
    {ending : Ending} {c : Char} {after after' : List Char}
    (hliteral : (Token.literal kind inside ending).Fits last after)
    (hplain : (Token.plain c).Fits last after') : kind.delimiter ≠ c := by
  rintro rfl
  obtain ⟨hposition, -, -⟩ := hliteral
  obtain ⟨-, hdouble, hsingle, hslash⟩ := hplain
  cases kind with
  | double => exact hdouble rfl
  | single => exact hsingle rfl
  | regex => exact hslash rfl (hposition rfl)

theorem Literal.delimiter_injective : Function.Injective Literal.delimiter := by
  intro kind kind'
  cases kind <;> cases kind' <;> simp [Literal.delimiter]

theorem token_unique {last : Option Char} {token token' : Token} {after after' : List Char}
    (htext : token.text ++ after = token'.text ++ after')
    (htoken : token.Fits last after) (htoken' : token'.Fits last after') :
    token = token' ∧ after = after' := by
  cases token with
  | plain c =>
      cases token' with
      | literal kind inside ending =>
          simp only [Token.text, List.cons_append, List.cons.injEq] at htext
          exact absurd htext.1.symm (literal_ne_plain htoken' htoken)
      | _ => simp_all [Token.text, Token.Fits]
  | escape c =>
      cases token' with
      | literal kind inside ending =>
          simp only [Token.text, List.cons_append, List.cons.injEq] at htext
          exact absurd htext.1.symm kind.delimiter_ne_backslash
      | plain d =>
          simp only [Token.text, List.cons_append, List.cons.injEq] at htext
          exact absurd htext.1.symm htoken'.1
      | _ => simp_all [Token.text, Token.Fits]
  | loneBackslash =>
      cases token' with
      | literal kind inside ending =>
          simp only [Token.text, List.cons_append, List.cons.injEq] at htext
          exact absurd htext.1.symm kind.delimiter_ne_backslash
      | plain d =>
          simp only [Token.text, List.cons_append, List.cons.injEq] at htext
          exact absurd htext.1.symm htoken'.1
      | _ => simp_all [Token.text, Token.Fits]
  | literal kind inside ending =>
      cases token' with
      | literal kind' inside' ending' =>
          simp only [Token.text, List.cons_append, List.append_assoc, List.cons.injEq] at htext
          obtain ⟨hkind, hrest⟩ := htext
          obtain rfl := Literal.delimiter_injective hkind
          obtain ⟨rfl, rfl, rfl⟩ :=
            inside_unique hrest htoken.2.1 htoken.2.2 htoken'.2.1 htoken'.2.2
          exact ⟨rfl, rfl⟩
      | plain c =>
          simp only [Token.text, List.cons_append, List.cons.injEq] at htext
          exact absurd htext.1 (literal_ne_plain htoken htoken')
      | escape c =>
          simp only [Token.text, List.cons_append, List.cons.injEq] at htext
          exact absurd htext.1 kind.delimiter_ne_backslash
      | loneBackslash =>
          simp only [Token.text, List.cons_append, List.cons.injEq] at htext
          exact absurd htext.1 kind.delimiter_ne_backslash

@[simp] theorem tokenText_nil : tokenText [] = [] := rfl

@[simp] theorem tokenText_cons (token : Token) (rest : List Token) :
    tokenText (token :: rest) = token.text ++ tokenText rest := rfl

theorem Token.text_ne_nil (token : Token) : token.text ≠ [] := by
  cases token <;> simp [Token.text]

theorem exists_reading (last : Option Char) (query : List Char) :
    ∃ tokens, tokenText tokens = query ∧ Reads last tokens := by
  induction hlength : query.length using Nat.strong_induction_on generalizing last query with
  | _ length ih =>
      by_cases hquery : query = []
      · exact ⟨[], hquery.symm, trivial⟩
      · obtain ⟨token, after, rfl, hfits⟩ := exists_token last hquery
        have hpos := List.length_pos_of_ne_nil token.text_ne_nil
        have hshorter : after.length < length := by
          rw [← hlength, List.length_append]
          omega
        obtain ⟨tokens, rfl, hreads⟩ := ih _ hshorter (token.lastFrom last) after rfl
        exact ⟨token :: tokens, rfl, hfits, hreads⟩

theorem reading_unique {last : Option Char} {tokens tokens' : List Token}
    (htext : tokenText tokens = tokenText tokens') (hreads : Reads last tokens)
    (hreads' : Reads last tokens') : tokens = tokens' := by
  induction tokens generalizing last tokens' with
  | nil =>
      cases tokens' with
      | nil => rfl
      | cons token rest => simp [token.text_ne_nil] at htext
  | cons token rest ih =>
      cases tokens' with
      | nil => simp [token.text_ne_nil] at htext
      | cons token' rest' =>
          obtain ⟨rfl, hrest⟩ := token_unique htext hreads.1 hreads'.1
          rw [ih hrest hreads.2 hreads'.2]

/-! ## The scanner paints tokens -/

def Ending.cells (kind : Literal) : Ending → List Cell
  | .closed flags => ⟨kind.delimiter, .closing⟩ :: flags.map (⟨·, .flag⟩)
  | .cut => []
  | .cutEscape => [⟨'\\', .content⟩]

def Ending.modeAfter (kind : Literal) : Ending → Mode
  | .closed _ => .code
  | .cut | .cutEscape => .inside kind

/-- The cells of a token, with the roles that its characters play. -/
def Token.cells : Token → List Cell
  | .plain c => [⟨c, if c = '|' then .separator else .code⟩]
  | .escape c => [⟨'\\', .code⟩, ⟨c, .code⟩]
  | .loneBackslash => [⟨'\\', .code⟩]
  | .literal kind inside ending =>
    ⟨kind.delimiter, .opening⟩ :: (inside.flatMap Glyph.text).map (⟨·, .content⟩) ++
      ending.cells kind

def Token.modeAfter : Token → Mode
  | .literal kind _ ending => ending.modeAfter kind
  | _ => .code

structure Scanner.Between (s : Scanner) (last : Option Char) : Prop where
  mode : s.mode = .code
  escaped : s.escaped = false
  position : opensRegex s.last = true ↔ RegexPosition last

theorem opensRegex_iff (last : Option Char) : opensRegex last = true ↔ RegexPosition last := by
  cases last with
  | none => simp [opensRegex, RegexPosition]
  | some c => simp [opensRegex, RegexPosition, or_assoc]

theorem regexFlagCount_eq (behind : List Char) :
    regexFlagCount behind = (Ending.flagsIn behind).length := by
  have hall : (behind.takeWhile isNameChar).all isRegexFlag = true ↔
      ∀ c ∈ behind.takeWhile isNameChar, c ∈ ['i', 'm', 's', 'U'] := by
    simp [isRegexFlag, or_assoc]
  by_cases h : (behind.takeWhile isNameChar).all isRegexFlag = true
  · rw [Ending.flagsIn, if_pos (hall.mp h)]
    simp [regexFlagCount, h]
  · rw [Ending.flagsIn, if_neg (mt hall.mpr h)]
    simp [regexFlagCount, h]

namespace Scanner

theorem reach_inside {kind : Literal} {inside : List Glyph}
    (hinside : ∀ glyph ∈ inside, glyph.Fits kind) (s : Scanner) (hmode : s.mode = .inside kind)
    (hescaped : s.escaped = false) (rest : List Char) :
    s.paintPart rest (inside.flatMap Glyph.text) =
        (inside.flatMap Glyph.text).map (⟨·, .content⟩) ∧
      (s.reach rest (inside.flatMap Glyph.text)).mode = .inside kind ∧
      (s.reach rest (inside.flatMap Glyph.text)).escaped = false := by
  induction inside generalizing s with
  | nil => simp [hmode, hescaped]
  | cons glyph inside ih =>
      have htail := ih fun g hg => hinside g (by simp [hg])
      have hglyph := hinside glyph (by simp)
      cases glyph with
      | plain c =>
          obtain ⟨hback, hclose⟩ := hglyph
          simp only [List.flatMap_cons, Glyph.text, List.cons_append, List.nil_append,
            paintPart_cons, reach_cons, step, hmode, hescaped, hback, hclose, if_false,
            Bool.false_eq_true, List.map_cons, List.cons.injEq, true_and]
          exact htail _ rfl rfl
      | escaped c =>
          simp only [List.flatMap_cons, Glyph.text, List.cons_append, List.nil_append,
            paintPart_cons, reach_cons, step, hmode, hescaped, if_false, if_true,
            Bool.false_eq_true, List.map_cons, List.cons.injEq, true_and]
          exact htail _ rfl rfl

theorem reach_flags (flags : List Char) (s : Scanner) (hmode : s.mode = .beforeFlags flags.length)
    (rest : List Char) :
    s.paintPart rest flags = flags.map (⟨·, .flag⟩) ∧
      s.reach rest flags = { s with mode := .code } := by
  induction flags generalizing s with
  | nil => cases s; simp_all [Mode.beforeFlags]
  | cons c flags ih =>
      have hstep : s.step c (flags ++ rest) = (.flag, { s with mode := .beforeFlags flags.length }) := by
        simp only [List.length_cons, Mode.beforeFlags] at hmode
        simp [step, hmode]
      simpa [paintPart_cons, reach_cons, hstep] using
        ih { s with mode := .beforeFlags flags.length } rfl

theorem reach_closed {kind : Literal} {flags after : List Char}
    (hfits : (Ending.closed flags).Fits kind after) (s : Scanner) (hmode : s.mode = .inside kind)
    (hescaped : s.escaped = false) :
    s.paintPart after (kind.delimiter :: flags) = (Ending.closed flags).cells kind ∧
      s.reach after (kind.delimiter :: flags) = ⟨.code, false, some kind.delimiter⟩ := by
  have hback := kind.delimiter_ne_backslash
  have hcount : kind.modeAfter (flags ++ after) = .beforeFlags flags.length := by
    simp only [Ending.Fits] at hfits
    cases kind with
    | regex =>
        simp only [if_true] at hfits
        rw [Literal.modeAfter, regexFlagCount_eq, ← hfits]
    | double | single => simp_all [Literal.modeAfter, Mode.beforeFlags]
  have hstep : s.step kind.delimiter (flags ++ after) =
      (.closing, ⟨.beforeFlags flags.length, false, some kind.delimiter⟩) := by
    simp [step, hmode, hescaped, hback, hcount]
  obtain ⟨hpaint, hreach⟩ :=
    reach_flags flags ⟨.beforeFlags flags.length, false, some kind.delimiter⟩ rfl after
  simp [paintPart_cons, reach_cons, hstep, hpaint, hreach, Ending.cells]

theorem reach_ending {kind : Literal} {ending : Ending} {after : List Char}
    (hfits : ending.Fits kind after) (s : Scanner) (hmode : s.mode = .inside kind)
    (hescaped : s.escaped = false) :
    s.paintPart after (ending.text kind) = ending.cells kind ∧
      (s.reach after (ending.text kind)).mode = ending.modeAfter kind ∧
      (ending.isClosed = true →
        s.reach after (ending.text kind) = ⟨.code, false, some kind.delimiter⟩) := by
  cases ending with
  | closed flags =>
      obtain ⟨hpaint, hreach⟩ := reach_closed hfits s hmode hescaped
      exact ⟨hpaint, by rw [Ending.text, hreach]; rfl, fun _ => hreach⟩
  | cut => exact ⟨rfl, hmode, by simp [Ending.isClosed]⟩
  | cutEscape =>
      have hstep : s.step '\\' after = (.content, { s with escaped := true }) := by
        simp [step, hmode, hescaped]
      simp [Ending.text, Ending.cells, Ending.modeAfter, Ending.isClosed, paintPart_cons,
        reach_cons, hstep, hmode]

theorem step_opening {kind : Literal} {s : Scanner} {last : Option Char} (hs : s.Between last)
    (hposition : kind = .regex → RegexPosition last) (rest : List Char) :
    s.step kind.delimiter rest = (.opening, ⟨.inside kind, false, some kind.delimiter⟩) := by
  have hopened : Literal.openedBy? s.last kind.delimiter = some kind := by
    cases kind with
    | double | single => rfl
    | regex => simp [Literal.openedBy?, Literal.delimiter, hs.position.mpr (hposition rfl)]
  simp [step, hs.mode, hs.escaped, kind.delimiter_ne_backslash, hopened]

end Scanner

theorem lastFrom_significant (last : Option Char) (c : Char) :
    ((List.filter (!isBlank ·) [c]).getLast?.or last) = significant last c := by
  by_cases h : isBlank c <;> simp [significant, h]

theorem Ending.mem_flagsIn {behind : List Char} {c : Char} (h : c ∈ flagsIn behind) :
    c ∈ ['i', 'm', 's', 'U'] := by
  unfold flagsIn at h
  split at h
  · rename_i hall
    exact hall c h
  · simp at h

theorem not_regexPosition_closed {kind : Literal} {inside : List Glyph} {flags after : List Char}
    (hfits : (Ending.closed flags).Fits kind after) (last : Option Char) :
    ¬ RegexPosition ((Token.literal kind inside (.closed flags)).lastFrom last) := by
  have hflags : ∀ c ∈ flags, c ∈ ['i', 'm', 's', 'U'] := by
    intro c hc
    simp only [Ending.Fits] at hfits
    split at hfits
    · rw [hfits] at hc
      exact Ending.mem_flagsIn hc
    · simp [hfits] at hc
  let tail := (kind.delimiter :: flags).filter (!isBlank ·)
  have htail : tail ≠ [] := by
    cases kind <;> simp [tail, Literal.delimiter, isBlank]
  have hlast : (Token.literal kind inside (.closed flags)).lastFrom last =
      some (tail.getLast htail) := by
    simp only [Token.lastFrom, Token.consumed, List.filter_append]
    rw [List.getLast?_append_of_ne_nil _ htail, List.getLast?_eq_some_getLast htail]
    rfl
  have hmem : tail.getLast htail ∈ kind.delimiter :: flags :=
    List.mem_of_mem_filter (List.getLast_mem htail)
  intro hposition
  have hopener := hposition _ hlast
  rcases List.mem_cons.mp hmem with hdelimiter | hflag
  · rw [hdelimiter] at hopener
    cases kind <;> simp [Literal.delimiter] at hopener
  · have := hflags _ hflag
    grind

theorem position_significant {last last' : Option Char}
    (h : opensRegex last = true ↔ RegexPosition last') (c : Char) :
    opensRegex (significant last c) = true ↔ RegexPosition (significant last' c) := by
  by_cases hblank : isBlank c
  · simpa [significant, hblank] using h
  · simp only [significant, hblank, Bool.false_eq_true, if_false]
    exact opensRegex_iff _

theorem Scanner.Between.token {s : Scanner} {last : Option Char} (hs : s.Between last)
    {token : Token} {after : List Char} (hfits : token.Fits last after) :
    s.paintPart after token.text = token.cells ∧
      (s.reach after token.text).mode = token.modeAfter ∧
      (token.isComplete = true →
        (s.reach after token.text).Between (token.lastFrom last)) := by
  cases token with
  | plain c =>
      obtain ⟨hback, hdouble, hsingle, hslash⟩ := hfits
      have hopened : Literal.openedBy? s.last c = none := by
        have : c = '/' → opensRegex s.last = false := fun h => by
          simpa using mt hs.position.mp (hslash h)
        simp [Literal.openedBy?, hdouble, hsingle]
        exact this
      have hstep : s.step c after = (if c = '|' then .separator else .code,
          { s with last := significant s.last c }) := by
        simp [step, hs.mode, hs.escaped, hback, hopened]
      simp only [Token.text, paintPart_cons, reach_cons, paintPart_nil, reach_nil,
        List.nil_append, hstep, Token.cells, true_and]
      refine ⟨hs.mode, fun _ => ⟨hs.mode, hs.escaped, ?_⟩⟩
      rw [Token.lastFrom, Token.consumed, lastFrom_significant]
      exact position_significant hs.position c
  | escape c =>
      have hstep : s.step '\\' (c :: after) = (.code, { s with escaped := true }) := by
        simp [step, hs.mode, hs.escaped]
      have hstep' : ({ s with escaped := true } : Scanner).step c after =
          (.code, { s with escaped := false, last := significant s.last c }) := by
        simp [step, hs.mode]
      simp only [Token.text, paintPart_cons, reach_cons, paintPart_nil, reach_nil,
        List.nil_append, List.cons_append, hstep, hstep', Token.cells, true_and]
      refine ⟨hs.mode, fun _ => ⟨hs.mode, rfl, ?_⟩⟩
      rw [Token.lastFrom, Token.consumed, lastFrom_significant]
      exact position_significant hs.position c
  | loneBackslash =>
      have hstep : s.step '\\' after = (.code, { s with escaped := true }) := by
        simp [step, hs.mode, hs.escaped]
      simp only [Token.text, paintPart_cons, reach_cons, paintPart_nil, reach_nil,
        List.nil_append, hstep, Token.cells, true_and]
      exact ⟨hs.mode, by simp [Token.isComplete]⟩
  | literal kind inside ending =>
      obtain ⟨hposition, hinside, hending⟩ := hfits
      -- The delimiter opens, the inside is passed over, and the ending decides what comes next.
      have hstep := step_opening hs hposition
        (inside.flatMap Glyph.text ++ ending.text kind ++ after)
      obtain ⟨hpaint, hmode, hescaped⟩ := reach_inside hinside
        ⟨.inside kind, false, some kind.delimiter⟩ rfl rfl (ending.text kind ++ after)
      simp only [Token.text, List.cons_append, paintPart_cons, reach_cons, hstep,
        paintPart_append, reach_append, hpaint, Token.cells, List.cons.injEq, true_and,
        List.append_cancel_left_eq]
      obtain ⟨hcells, hafter, hclosed⟩ := reach_ending hending _ hmode hescaped
      refine ⟨hcells, hafter, fun hcomplete => ?_⟩
      cases ending with
      | closed flags =>
          rw [hclosed rfl]
          refine ⟨rfl, rfl, ?_⟩
          have hnot : ¬ RegexPosition
              ((Token.literal kind inside (.closed flags)).lastFrom last) :=
            not_regexPosition_closed hending last
          simp only [hnot, iff_false, Bool.not_eq_true]
          cases kind <;> rfl
      | cut | cutEscape => simp [Token.isComplete, Ending.isClosed] at hcomplete

theorem Token.rest_nil_of_incomplete {token : Token} {last : Option Char} {rest : List Token}
    (hfits : token.Fits last (tokenText rest)) (hcomplete : token.isComplete = false) :
    rest = [] := by
  have htext : tokenText rest = [] := by
    cases token with
    | plain | escape => simp [Token.isComplete] at hcomplete
    | loneBackslash => exact hfits
    | literal kind inside ending =>
        cases ending with
        | closed flags => simp [Token.isComplete, Ending.isClosed] at hcomplete
        | cut | cutEscape => exact hfits.2.2
  cases rest with
  | nil => rfl
  | cons token rest => simp [token.text_ne_nil] at htext

theorem Reads.isComplete {last : Option Char} {before after : List Token} {token : Token}
    (hreads : Reads last (before ++ token :: after)) (hafter : after ≠ []) :
    token.isComplete = true := by
  induction before generalizing last with
  | nil =>
      by_contra h
      exact hafter (Token.rest_nil_of_incomplete hreads.1 (by simpa using h))
  | cons first before ih => exact ih hreads.2

theorem Token.modeAfter_complete {token : Token} (hcomplete : token.isComplete = true) :
    token.modeAfter = .code := by
  cases token with
  | plain | escape | loneBackslash => rfl
  | literal kind inside ending =>
      cases ending with
      | closed flags => rfl
      | cut | cutEscape => simp [Token.isComplete, Ending.isClosed] at hcomplete

theorem Scanner.Between.reading {s : Scanner} {last : Option Char} (hs : s.Between last)
    {tokens : List Token} (hreads : Reads last tokens) :
    s.paint (tokenText tokens) = tokens.flatMap Token.cells ∧
      (s.finish (tokenText tokens)).mode = (tokens.getLast?.map Token.modeAfter).getD .code := by
  induction tokens generalizing s last with
  | nil => exact ⟨rfl, hs.mode⟩
  | cons token rest ih =>
      obtain ⟨hfits, hrest⟩ := hreads
      obtain ⟨hpaint, hmode, hnext⟩ := hs.token hfits
      rw [tokenText_cons, paint_append, finish_append, hpaint]
      cases hcomplete : token.isComplete with
      | false =>
          obtain rfl := Token.rest_nil_of_incomplete hfits hcomplete
          exact ⟨by simp [paint], by simpa [finish] using hmode⟩
      | true =>
          obtain ⟨hcells, hlast⟩ := ih (hnext hcomplete) hrest
          refine ⟨by simp [hcells], ?_⟩
          rw [hlast]
          cases rest with
          | nil => simp [Token.modeAfter_complete hcomplete]
          | cons next rest => simp

/-! ## What a scan tells, token by token -/

@[simp] theorem Token.text_cells (token : Token) : Query.text token.cells = token.text := by
  cases token with
  | plain | escape | loneBackslash => rfl
  | literal kind inside ending =>
      cases ending <;>
        simp [Token.cells, Token.text, Ending.cells, Ending.text, Query.text, Function.comp_def]

theorem Token.isLiteral_cells {token : Token} {cell : Cell} (hcell : cell ∈ token.cells) :
    cell.isLiteral = token.isLiteral := by
  cases token with
  | plain c =>
      simp only [Token.cells, List.mem_singleton] at hcell
      subst hcell
      simp only [Cell.isLiteral, Token.isLiteral]
      split <;> rfl
  | escape | loneBackslash =>
      simp only [Token.cells, List.mem_cons, List.not_mem_nil, or_false] at hcell
      rcases hcell with rfl | rfl <;> rfl
  | literal kind inside ending =>
      cases ending <;>
        simp only [Token.cells, Ending.cells, List.mem_cons, List.mem_append, List.mem_map,
          List.not_mem_nil, or_false, List.cons_append] at hcell <;>
        grind [Cell.isLiteral, Role.isLiteral, Token.isLiteral]

theorem mask_tokens (tokens : List Token) :
    mask (tokens.flatMap Token.cells) =
      tokens.flatMap fun token => List.replicate (byteSize token.text) token.isLiteral := by
  rw [mask, List.flatMap_assoc]
  congr 1
  funext token
  exact (mask_of_forall fun cell hcell => Token.isLiteral_cells hcell).trans
    (by rw [Token.text_cells])

theorem Token.separators (token : Token) (offset : Nat) :
    offsetsOf Cell.isSeparator offset token.cells =
      if token = .plain '|' then [offset] else [] := by
  cases token with
  | plain c =>
      by_cases h : c = '|'
      · simp [Token.cells, offsetsOf, Cell.isSeparator, h]
      · simp [Token.cells, offsetsOf, Cell.isSeparator, h]
  | escape | loneBackslash => rfl
  | literal kind inside ending =>
      refine (offsetsOf_eq_nil (fun cell hcell => ?_) offset).trans (by simp)
      have hliteral := Token.isLiteral_cells hcell
      simp only [Token.isLiteral, Cell.isLiteral] at hliteral
      cases hrole : cell.role <;> simp_all [Cell.isSeparator, Role.isLiteral]

theorem separators_tokens (tokens : List Token) (offset : Nat) :
    offsetsOf Cell.isSeparator offset (tokens.flatMap Token.cells) =
      tokenOffsets (· == .plain '|') offset tokens := by
  induction tokens generalizing offset with
  | nil => rfl
  | cons token tokens ih =>
      rw [List.flatMap_cons, offsetsOf_append, Token.separators, Token.text_cells, ih, tokenOffsets]
      by_cases h : token = .plain '|' <;> simp [h]

namespace Token

def isClosedString : Token → Bool
  | .literal .double _ ending => ending.isClosed
  | _ => false

def isOpenString : Token → Bool
  | .literal .double _ ending => !ending.isClosed
  | _ => false

end Token

theorem Token.countP_isQuote (token : Token) :
    token.cells.countP Cell.isQuote =
      2 * (if token.isClosedString then 1 else 0) + if token.isOpenString then 1 else 0 := by
  have hinside (inside : List Glyph) :
      ((inside.flatMap Glyph.text).map fun c => (⟨c, .content⟩ : Cell)).countP Cell.isQuote = 0 := by
    simp [List.countP_eq_zero, Cell.isQuote]
  have hflags (flags : List Char) :
      (flags.map fun c => (⟨c, .flag⟩ : Cell)).countP Cell.isQuote = 0 := by
    simp [List.countP_eq_zero, Cell.isQuote]
  cases token with
  | plain c =>
      by_cases h : c = '|' <;>
        simp [Token.cells, Cell.isQuote, Token.isClosedString, Token.isOpenString, h]
  | escape | loneBackslash =>
      simp [Token.cells, Cell.isQuote, Token.isClosedString, Token.isOpenString]
  | literal kind inside ending =>
      cases kind <;> cases ending <;>
        simp [Token.cells, Ending.cells, hinside, hflags, Cell.isQuote, Literal.delimiter,
          Token.isClosedString, Token.isOpenString, Ending.isClosed]

theorem Token.isOpenString_of_isComplete {token : Token} (h : token.isComplete = true) :
    token.isOpenString = false := by
  cases token with
  | plain | escape | loneBackslash => rfl
  | literal kind inside ending => cases kind <;> simp_all [Token.isComplete, Token.isOpenString]

theorem countP_isQuote_tokens {last : Option Char} {tokens : List Token}
    (hreads : Reads last tokens) :
    (tokens.flatMap Token.cells).countP Cell.isQuote =
      2 * tokens.countP Token.isClosedString +
        if tokens.getLast?.any Token.isOpenString then 1 else 0 := by
  induction tokens generalizing last with
  | nil => rfl
  | cons token rest ih =>
      rw [List.flatMap_cons, List.countP_append, Token.countP_isQuote, ih hreads.2,
        List.countP_cons]
      cases rest with
      | nil =>
          by_cases hopen : token.isOpenString <;> simp [hopen]
      | cons next rest =>
          -- Only the last token can be cut short.
          have hcomplete : token.isComplete = true :=
            Reads.isComplete (show Reads last ([] ++ token :: next :: rest) from hreads) (by simp)
          simp only [Token.isOpenString_of_isComplete hcomplete, List.getLast?_cons_cons,
            Bool.false_eq_true, if_false]
          omega

theorem text_flatMap_cells (tokens : List Token) :
    text (tokens.flatMap Token.cells) = tokenText tokens := by
  induction tokens with
  | nil => rfl
  | cons token tokens ih => simp [ih]

theorem scan_tokens {tokens : List Token} {query : List Char} (h : Tokenizes tokens query) :
    (scan query).cells = tokens.flatMap Token.cells ∧
      (scan query).final.mode = (tokens.getLast?.map Token.modeAfter).getD .code := by
  obtain ⟨rfl, hreads⟩ := h
  have hstart : Scanner.Between {} none := ⟨rfl, rfl, opensRegex_iff none⟩
  exact hstart.reading hreads

theorem openings_literal (kind : Literal) (inside : List Glyph) (ending : Ending) (offset : Nat) :
    offsetsOf (·.role == .opening) offset (Token.literal kind inside ending).cells = [offset] := by
  have hrest : ∀ cell ∈ (inside.flatMap Glyph.text).map (⟨·, .content⟩) ++ ending.cells kind,
      (cell.role == .opening) = false := by
    intro cell hcell
    cases ending <;>
      simp only [Ending.cells, List.mem_append, List.mem_map, List.mem_cons, List.not_mem_nil,
        or_false] at hcell <;> grind
  simp only [Token.cells, List.cons_append, offsetsOf]
  rw [offsetsOf_eq_nil hrest]
  rfl

theorem openLiteral_cut {query : List Char} {before : List Token} {kind : Literal}
    {inside : List Glyph} {ending : Ending}
    (htokens : Tokenizes (before ++ [.literal kind inside ending]) query)
    (hcut : ending.isClosed = false) :
    (scan query).openLiteral =
      if kind = .double then none else some (kind, byteSize (tokenText before)) := by
  obtain ⟨hcells, hmode⟩ := scan_tokens htokens
  have hinside : (scan query).final.mode = .inside kind := by
    rw [hmode]
    cases ending with
    | closed flags => simp [Ending.isClosed] at hcut
    | cut | cutEscape => simp [Token.modeAfter, Ending.modeAfter]
  have hoffset : (offsetsOf (·.role == .opening) 0 (scan query).cells).getLast? =
      some (byteSize (tokenText before)) := by
    rw [hcells, List.flatMap_append, offsetsOf_append, List.flatMap_singleton, openings_literal]
    simp [text_flatMap_cells]
  cases kind <;> simp [Scan.openLiteral, hinside, hoffset]

theorem openLiteral_code {tokens : List Token} {token : Token} {query : List Char}
    (h : Tokenizes (tokens ++ [token]) query) (hcode : token.modeAfter = .code) :
    (scan query).openLiteral = none := by
  have hmode : (scan query).final.mode = .code := by
    rw [(scan_tokens h).2]
    simp [hcode]
  simp [Scan.openLiteral, hmode]

theorem openLiteral_iff {tokens : List Token} {query : List Char} (h : Tokenizes tokens query)
    (kind : Literal) (start : Nat) :
    (scan query).openLiteral = some (kind, start) ↔
      kind ≠ .double ∧ ∃ before inside ending,
        tokens = before ++ [.literal kind inside ending] ∧ ending.isClosed = false ∧
          start = byteSize (tokenText before) := by
  constructor
  · intro hopen
    rcases tokens.eq_nil_or_concat' with rfl | ⟨before, token, rfl⟩
    · simp [Scan.openLiteral, (scan_tokens h).2] at hopen
    · cases token with
      | plain | escape | loneBackslash =>
          rw [openLiteral_code h rfl] at hopen
          contradiction
      | literal kind' inside ending =>
          cases hcut : ending.isClosed with
          | true =>
              have hcode : (Token.literal kind' inside ending).modeAfter = .code :=
                Token.modeAfter_complete hcut
              rw [openLiteral_code h hcode] at hopen
              contradiction
          | false =>
              rw [openLiteral_cut h hcut] at hopen
              by_cases hdouble : kind' = .double
              · simp [hdouble] at hopen
              · simp only [hdouble, if_false, Option.some.injEq, Prod.mk.injEq] at hopen
                obtain ⟨rfl, rfl⟩ := hopen
                exact ⟨hdouble, before, inside, ending, rfl, hcut, rfl⟩
  · rintro ⟨hdouble, before, inside, ending, rfl, hcut, rfl⟩
    rw [openLiteral_cut h hcut, if_neg hdouble]

/-- The scanner refines the grammar of literals: every query has exactly one reading, and what a
scan tells about bytes, separators, quotes and open literals is what the tokens tell. -/
theorem scan_refines_tokens (query : List Char) :
    ∃ tokens, Tokenizes tokens query ∧ (∀ other, Tokenizes other query → other = tokens) ∧
      (∀ before token after, tokens = before ++ token :: after → after ≠ [] →
        token.isComplete = true) ∧
      (scan query).literalMask =
        tokens.flatMap (fun token => List.replicate (byteSize token.text) token.isLiteral) ∧
      (scan query).separators = tokenOffsets (· == .plain '|') 0 tokens ∧
      (scan query).doubleQuotes = 2 * tokens.countP Token.isClosedString +
        (if tokens.getLast?.any Token.isOpenString then 1 else 0) ∧
      ∀ kind start, (scan query).openLiteral = some (kind, start) ↔
        kind ≠ .double ∧ ∃ before inside ending,
          tokens = before ++ [.literal kind inside ending] ∧ ending.isClosed = false ∧
            start = byteSize (tokenText before) := by
  obtain ⟨tokens, htext, hreads⟩ := exists_reading none query
  have htokens : Tokenizes tokens query := ⟨htext, hreads⟩
  obtain ⟨hcells, -⟩ := scan_tokens htokens
  refine ⟨tokens, htokens, fun other hother => ?_, ?_, ?_, ?_, ?_, openLiteral_iff htokens⟩
  · exact reading_unique (hother.1.trans htext.symm) hother.2 hreads
  · rintro before token after rfl hafter
    exact Reads.isComplete hreads hafter
  · rw [literalMask_eq, hcells, mask_tokens]
  · rw [Scan.separators, hcells, separators_tokens]
  · rw [doubleQuotes_eq, hcells, countP_isQuote_tokens hreads]

end OpalRepair.Query
