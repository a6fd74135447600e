import Mathlib
import OpalRepair.Proofs.Bytes.Slice
import OpalRepair.Proofs.Layout

/-!
# Scanning by byte offsets

One sweep over a query keeps what a scan tells in byte offsets: a mark for every byte, the offsets
of separators and of the literal last opened, and the number of flag bytes still to come.  The
stages are cut out of the text between the separators afterwards.  No step of this fails.
-/

namespace OpalRepair.Bytes

open Query Text

/-! ## The sweep -/

structure Sweep where
  marks : List Bool
  separators : List Nat := []
  inside : Option Literal := none
  escaped : Bool := false
  quotes : Nat := 0
  last : Option Char := none
  start : Nat := 0
  flagBytes : Nat := 0
  deriving DecidableEq, Repr

def mark? (marks : List Bool) (offset width : Nat) : Option (List Bool) :=
  if offset + width ≤ marks.length then
    some (marks.take offset ++ List.replicate width true ++ marks.drop (offset + width))
  else none

def flagBytes? (rest : List Char) : Option Nat :=
  let size := byteSize (rest.takeWhile isNameChar)
  (slice? rest 0 size).map fun flags => if flags.all isRegexFlag then size else 0

def flagsBehind? (query : List Char) (literal : Literal) (offset : Nat) : Option Nat :=
  if literal = .regex then (sliceFrom? query offset).bind flagBytes? else some 0

namespace Sweep

def markInside? (sweep : Sweep) (offset width : Nat) : Option (List Bool) :=
  if sweep.inside.isSome then mark? sweep.marks offset width else some sweep.marks

def open? (sweep : Sweep) (literal : Literal) (offset : Nat) (c : Char) : Option Sweep := do
  let marks ← mark? sweep.marks offset c.utf8Size
  some { sweep with
    marks
    inside := some literal
    quotes := if literal = .double then sweep.quotes + 1 else sweep.quotes
    start := if literal = .double then sweep.start else offset
    last := significant sweep.last c }

def inside? (query : List Char) (sweep : Sweep) (literal : Literal) (offset : Nat) (c : Char) :
    Option Sweep := do
  let marks ← mark? sweep.marks offset c.utf8Size
  if c = literal.delimiter then
    let flagBytes ← flagsBehind? query literal (offset + c.utf8Size)
    some { sweep with
      marks
      inside := none
      quotes := if literal = .double then sweep.quotes + 1 else sweep.quotes
      last := significant sweep.last c
      flagBytes }
  else some { sweep with marks, last := significant sweep.last c }

def step? (query : List Char) (sweep : Sweep) (offset : Nat) (c : Char) : Option Sweep :=
  if 0 < sweep.flagBytes then do
    let marks ← mark? sweep.marks offset c.utf8Size
    let flagBytes ← sub? sweep.flagBytes c.utf8Size
    some { sweep with marks, flagBytes }
  else if sweep.escaped then do
    let marks ← sweep.markInside? offset c.utf8Size
    some { sweep with marks, escaped := false, last := significant sweep.last c }
  else if c = '\\' then do
    let marks ← sweep.markInside? offset c.utf8Size
    some { sweep with marks, escaped := true }
  else match sweep.inside with
    | some literal => sweep.inside? query literal offset c
    | none => match Literal.openedBy? sweep.last c with
      | some literal => sweep.open? literal offset c
      | none => some { sweep with
          separators := if c = '|' then sweep.separators ++ [offset] else sweep.separators
          last := significant sweep.last c }

def run? (query : List Char) : Sweep → Nat → List Char → Option Sweep
  | sweep, _, [] => some sweep
  | sweep, offset, c :: rest => do
    let next ← sweep.step? query offset c
    run? query next (offset + c.utf8Size) rest

end Sweep

/-! ## The sweep follows the scanner -/

theorem mark?_mask (painted : List Cell) {role : Role} (hrole : role.isLiteral = true) (c : Char)
    (rest : List Char) :
    mark? (mask painted ++ List.replicate (byteSize (c :: rest)) false)
        (byteSize (text painted)) c.utf8Size =
      some (mask (painted ++ [⟨c, role⟩]) ++ List.replicate (byteSize rest) false) := by
  have hlength : (mask painted).length = byteSize (text painted) := length_mask painted
  rw [mark?, if_pos (by simp), ← hlength, List.take_left, List.drop_append]
  simp [Cell.isLiteral, hrole]

theorem mask_code (painted : List Cell) {role : Role} (hrole : role.isLiteral = false) (c : Char)
    (rest : List Char) :
    mask painted ++ List.replicate (byteSize (c :: rest)) false =
      mask (painted ++ [⟨c, role⟩]) ++ List.replicate (byteSize rest) false := by
  simp [Cell.isLiteral, hrole]

theorem flagBytes?_eq (rest : List Char) : flagBytes? rest = some (regexFlagCount rest) := by
  have hslice : slice? rest 0 (byteSize (rest.takeWhile isNameChar)) =
      some (rest.takeWhile isNameChar) :=
    slice?_eq [] _ (rest.dropWhile isNameChar) (by simp) rfl (by simp)
  rw [flagBytes?, hslice, Option.map_some, regexFlagCount,
    byteSize_of_isNameChar fun c hc => List.mem_takeWhile_imp hc]

/-- What a sweep keeps after the cells `painted`, where the scanner is in state `s` and `rest`
follows. -/
structure Sweep.Tracks (sweep : Sweep) (painted : List Cell) (s : Scanner) (rest : List Char) :
    Prop where
  marks : sweep.marks = mask painted ++ List.replicate (byteSize rest) false
  separators : sweep.separators = offsetsOf Cell.isSeparator 0 painted
  quotes : sweep.quotes = painted.countP Cell.isQuote
  escaped : sweep.escaped = s.escaped
  last : sweep.last = s.last
  mode : s.mode = match sweep.inside with
    | some literal => .inside literal
    | none => .beforeFlags sweep.flagBytes
  start : ∀ literal, sweep.inside = some literal → literal ≠ .double →
    (offsetsOf (·.role == .opening) 0 painted).getLast? = some sweep.start
  noFlags : sweep.inside ≠ none → sweep.flagBytes = 0
  flags : ∀ c ∈ rest.take sweep.flagBytes, isNameChar c = true

namespace Sweep.Tracks

variable {sweep : Sweep} {painted : List Cell} {s : Scanner} {c : Char} {rest query : List Char}

theorem separators_concat (h : sweep.Tracks painted s (c :: rest)) {cell : Cell}
    (hcell : cell.isSeparator = false) :
    sweep.separators = offsetsOf Cell.isSeparator 0 (painted ++ [cell]) := by
  simp [h.separators, offsetsOf_append, offsetsOf, hcell]

theorem quotes_concat (h : sweep.Tracks painted s (c :: rest)) {cell : Cell}
    (hcell : cell.isQuote = false) :
    sweep.quotes = (painted ++ [cell]).countP Cell.isQuote := by
  simp [h.quotes, hcell]

theorem start_concat (h : sweep.Tracks painted s (c :: rest)) {cell : Cell}
    (hcell : cell.role ≠ .opening) : ∀ literal, sweep.inside = some literal → literal ≠ .double →
    (offsetsOf (·.role == .opening) 0 (painted ++ [cell])).getLast? = some sweep.start := by
  intro literal hinside hdouble
  simpa [offsetsOf_append, offsetsOf, hcell] using h.start literal hinside hdouble

theorem flag (h : sweep.Tracks painted s (c :: rest)) (hflags : 0 < sweep.flagBytes) :
    ∃ next, sweep.step? query (byteSize (text painted)) c = some next ∧
      next.Tracks (painted ++ [⟨c, (s.step c rest).1⟩]) (s.step c rest).2 rest := by
  obtain ⟨more, hmore⟩ : ∃ more, sweep.flagBytes = more + 1 := ⟨sweep.flagBytes - 1, by omega⟩
  have hinside : sweep.inside = none := by
    by_contra hne
    have := h.noFlags hne
    omega
  have hmode : s.mode = .flags more := by rw [h.mode, hinside, hmore]; rfl
  have hname : isNameChar c = true := h.flags c (by simp [hmore])
  have hstep : s.step c rest = (.flag, { s with mode := .beforeFlags more }) := by
    simp [Scanner.step, hmode]
  have hsub : sub? sweep.flagBytes c.utf8Size = some more := by
    rw [utf8Size_of_isNameChar hname, sub?_eq hflags, hmore]
    rfl
  have hmark := mark?_mask painted (show Role.flag.isLiteral = true from rfl) c rest
  rw [hstep, step?, if_pos hflags, h.marks, hmark, hsub]
  refine ⟨_, rfl, rfl, h.separators_concat rfl, h.quotes_concat (by simp [Cell.isQuote]), h.escaped,
    h.last, by simp [hinside], by simp [hinside], by simp [hinside], ?_⟩
  intro d hd
  exact h.flags d (by simp [hmore, hd])

theorem inert (h : sweep.Tracks painted s (c :: rest)) (hflags : sweep.flagBytes = 0)
    {role : Role} (hrole : role = if sweep.inside.isSome then .content else .code)
    (escaped : Bool) (last : Option Char) :
    ∃ marks, sweep.markInside? (byteSize (text painted)) c.utf8Size = some marks ∧
      Sweep.Tracks { sweep with marks, escaped, last } (painted ++ [⟨c, role⟩])
        { s with escaped, last } rest := by
  have hopening : role ≠ .opening := by rw [hrole]; split <;> simp
  have hseparator : (⟨c, role⟩ : Cell).isSeparator = false := by
    rw [hrole]; split <;> rfl
  have hquote : (⟨c, role⟩ : Cell).isQuote = false := by
    rw [hrole]; split <;> simp [Cell.isQuote]
  have hmarks : sweep.markInside? (byteSize (text painted)) c.utf8Size =
      some (mask (painted ++ [⟨c, role⟩]) ++ List.replicate (byteSize rest) false) := by
    rw [markInside?, h.marks, hrole]
    split
    · exact mark?_mask painted rfl c rest
    · exact congrArg some (mask_code painted rfl c rest)
  exact ⟨_, hmarks, rfl, h.separators_concat hseparator, h.quotes_concat hquote, rfl, rfl, h.mode,
    h.start_concat hopening, h.noFlags, by simp [hflags]⟩

theorem code_mode (h : sweep.Tracks painted s (c :: rest)) (hflags : sweep.flagBytes = 0)
    (hinside : sweep.inside = none) : s.mode = .code := by
  rw [h.mode, hinside, hflags]
  rfl

theorem code (h : sweep.Tracks painted s (c :: rest)) (hflags : sweep.flagBytes = 0)
    (hescaped : s.escaped = false) (hc : c ≠ '\\') (hinside : sweep.inside = none) :
    ∃ next, sweep.step? query (byteSize (text painted)) c = some next ∧
      next.Tracks (painted ++ [⟨c, (s.step c rest).1⟩]) (s.step c rest).2 rest := by
  have hmode := h.code_mode hflags hinside
  rw [step?, if_neg (by omega), if_neg (by simp [h.escaped, hescaped]), if_neg hc]
  simp only [hinside, h.last]
  cases hopened : Literal.openedBy? s.last c with
  | none =>
      have hstep : s.step c rest =
          (if c = '|' then .separator else .code, { s with last := significant s.last c }) := by
        simp [Scanner.step, hmode, hescaped, hc, hopened]
      rw [hstep]
      refine ⟨_, rfl, ?_, ?_, ?_, h.escaped, rfl, ?_, by simp, by simp, by simp [hflags]⟩
      · rw [h.marks]
        exact mask_code painted (by split <;> rfl) c rest
      · by_cases hpipe : c = '|' <;>
          simp [h.separators, hpipe, offsetsOf_append, offsetsOf, Cell.isSeparator]
      · exact h.quotes_concat (by split <;> simp [Cell.isQuote])
      · simp [hmode, hflags, Mode.beforeFlags]
  | some literal =>
      have hstep : s.step c rest =
          (.opening, { s with mode := .inside literal, last := some c }) := by
        simp [Scanner.step, hmode, hescaped, hc, hopened]
      have hmark := mark?_mask painted (show Role.opening.isLiteral = true from rfl) c rest
      have hquote : c = '"' ↔ literal = .double := by
        revert hopened
        simp only [Literal.openedBy?]
        grind
      have hblank : isBlank c = false := by
        revert hopened
        simp only [Literal.openedBy?]
        split_ifs with h1 h2 h3 <;> simp_all [isBlank]
      rw [hstep]
      simp only [Sweep.open?, h.marks, hmark, Option.bind_eq_bind, Option.bind_some]
      refine ⟨_, rfl, rfl, h.separators_concat rfl, ?_, h.escaped, ?_, by rfl, ?_, by simp [hflags],
        by simp [hflags]⟩
      · by_cases hdouble : literal = .double <;> simp [h.quotes, Cell.isQuote, hquote, hdouble]
      · simp [significant, hblank]
      · intro other hother hdouble
        obtain rfl : literal = other := by simpa using hother
        simp [hdouble, offsetsOf_append, offsetsOf]

theorem literal (h : sweep.Tracks painted s (c :: rest)) (hquery : query = text painted ++ c :: rest)
    (hescaped : s.escaped = false) (hc : c ≠ '\\') {literal : Literal}
    (hinside : sweep.inside = some literal) :
    ∃ next, sweep.step? query (byteSize (text painted)) c = some next ∧
      next.Tracks (painted ++ [⟨c, (s.step c rest).1⟩]) (s.step c rest).2 rest := by
  have hflags : sweep.flagBytes = 0 := h.noFlags (by simp [hinside])
  have hmode : s.mode = .inside literal := by rw [h.mode, hinside]
  rw [step?, if_neg (by omega), if_neg (by simp [h.escaped, hescaped]), if_neg hc]
  simp only [hinside, Sweep.inside?, h.marks]
  by_cases hclose : c = literal.delimiter
  · have hstep : s.step c rest =
        (.closing, { s with mode := literal.modeAfter rest, last := some c }) := by
      simp [Scanner.step, hmode, hescaped, hc, ← hclose]
    have hblank : isBlank c = false := by
      rw [hclose]
      cases literal <;> rfl
    have hquote : c = '"' ↔ literal = .double := by
      rw [hclose]
      cases literal <;> decide
    have hbehind : flagsBehind? query literal (byteSize (text painted) + c.utf8Size) =
        some (if literal = .regex then regexFlagCount rest else 0) := by
      rw [flagsBehind?, sliceFrom?_eq (text painted ++ [c]) rest (by simp [hquery]) (by simp),
        Option.bind_some, flagBytes?_eq]
      split <;> rfl
    rw [hstep, mark?_mask painted (show Role.closing.isLiteral = true from rfl) c rest]
    simp only [Option.bind_eq_bind, Option.bind_some, if_pos hclose, hbehind]
    refine ⟨_, rfl, rfl, h.separators_concat rfl, ?_, h.escaped, ?_, ?_, by simp, by simp, ?_⟩
    · by_cases hdouble : literal = .double <;> simp [h.quotes, Cell.isQuote, hquote, hdouble]
    · simp [significant, hblank]
    · cases literal <;> rfl
    · intro d hd
      have hname : d ∈ rest.takeWhile isNameChar := by
        dsimp only at hd
        split at hd
        · rw [regexFlagCount] at hd
          split at hd
          · rw [List.prefix_iff_eq_take.mp (List.takeWhile_prefix isNameChar)]
            exact hd
          · simp at hd
        · simp at hd
      exact List.mem_takeWhile_imp hname
  · have hstep : s.step c rest = (.content, { s with last := significant s.last c }) := by
      simp [Scanner.step, hmode, hescaped, hc, hclose]
    rw [hstep, mark?_mask painted (show Role.content.isLiteral = true from rfl) c rest]
    simp only [Option.bind_eq_bind, Option.bind_some, if_neg hclose]
    exact ⟨_, rfl, rfl, h.separators_concat rfl, h.quotes_concat (by simp [Cell.isQuote]), h.escaped,
      by rw [h.last], hmode, fun other hother => h.start_concat (by simp) other (hinside.trans hother),
      fun _ => hflags, by simp [hflags]⟩

theorem step (h : sweep.Tracks painted s (c :: rest)) (hquery : query = text painted ++ c :: rest) :
    ∃ next, sweep.step? query (byteSize (text painted)) c = some next ∧
      next.Tracks (painted ++ [⟨c, (s.step c rest).1⟩]) (s.step c rest).2 rest := by
  rcases Nat.eq_zero_or_pos sweep.flagBytes with hflags | hflags
  swap
  · exact h.flag hflags
  cases hescaped : s.escaped with
  | true =>
      have hstep : s.step c rest = (if sweep.inside.isSome then .content else .code,
          { s with escaped := false, last := significant s.last c }) := by
        rw [Scanner.step, h.mode]
        cases sweep.inside <;> simp [hflags, Mode.beforeFlags, hescaped]
      obtain ⟨marks, hmarks, htracks⟩ := h.inert hflags rfl false (significant s.last c)
      rw [step?, if_neg (by omega), if_pos (by rw [h.escaped, hescaped]), hmarks, hstep]
      exact ⟨_, rfl, by simpa [h.last] using htracks⟩
  | false =>
      by_cases hc : c = '\\'
      · have hstep : s.step c rest = (if sweep.inside.isSome then .content else .code,
            { s with escaped := true }) := by
          rw [Scanner.step, h.mode]
          cases sweep.inside <;> simp [hflags, Mode.beforeFlags, hescaped, hc]
        obtain ⟨marks, hmarks, htracks⟩ := h.inert hflags rfl true s.last
        rw [step?, if_neg (by omega), if_neg (by simp [h.escaped, hescaped]), if_pos hc, hmarks,
          hstep]
        exact ⟨_, rfl, by simpa [← h.last] using htracks⟩
      · cases hinside : sweep.inside with
        | none => exact h.code hflags hescaped hc hinside
        | some _ => exact h.literal hquery hescaped hc hinside

theorem run {rest : List Char} (h : sweep.Tracks painted s rest)
    (hquery : query = text painted ++ rest) :
    ∃ last, sweep.run? query (byteSize (text painted)) rest = some last ∧
      last.Tracks (painted ++ s.paint rest) (s.finish rest) [] := by
  induction rest generalizing sweep painted s with
  | nil => exact ⟨sweep, rfl, by simpa [Scanner.paint, Scanner.finish] using h⟩
  | cons c rest ih =>
      obtain ⟨next, hnext, htracks⟩ := h.step hquery
      obtain ⟨last, hlast, hend⟩ := ih htracks (by simp [hquery])
      refine ⟨last, ?_, ?_⟩
      · simpa [run?, hnext] using hlast
      · simpa [Scanner.paint, Scanner.finish] using hend

end Sweep.Tracks

/-! ## Stages -/

def trimmed? (query : List Char) (start stop : Nat) : Option (Option Span) := do
  let part ← slice? query start stop
  let lead ← sub? (byteSize part) (byteSize (trimStart part))
  let trail ← sub? (byteSize part) (byteSize (trimEnd part))
  if byteSize part ≤ lead + trail then some none
  else
    let stop ← sub? stop trail
    some (some ⟨start + lead, stop⟩)

def stagesFrom? (query : List Char) : Nat → List Nat → Option (List Span)
  | _, [] => some []
  | start, stop :: stops => do
    let stage ← trimmed? query start stop
    let stages ← stagesFrom? query (min (stop + 1) (byteSize query)) stops
    some (stage.toList ++ stages)

structure View where
  stages : List Span
  separators : List Nat
  literal : List Bool
  doubleQuotes : Nat
  openLiteral : Option (Literal × Nat)
  deriving DecidableEq, Repr

def View.inLiteral (view : View) (offset : Nat) : Bool := view.literal.getD offset false

def Sweep.openLiteral (sweep : Sweep) : Option (Literal × Nat) :=
  match sweep.inside with
  | some .single => some (.single, sweep.start)
  | some .regex => some (.regex, sweep.start)
  | some .double | none => none

def scan? (query : List Char) : Option View := do
  let sweep ← Sweep.run? query { marks := List.replicate (byteSize query) false } 0 query
  let stages ← stagesFrom? query 0 (sweep.separators ++ [byteSize query])
  some ⟨stages, sweep.separators, sweep.marks, sweep.quotes, sweep.openLiteral⟩

def view (query : List Char) : View :=
  let scan := scan query
  ⟨scan.stageSpans, scan.separators, scan.literalMask, scan.doubleQuotes, scan.openLiteral⟩

theorem trimmed?_blank {query : List Char} {start stop : Nat} (before part after : List Char)
    (hquery : query = before ++ part ++ after) (hstart : start = byteSize before)
    (hstop : stop = byteSize before + byteSize part) (hblank : ∀ c ∈ part, isBlank c = true) :
    trimmed? query start stop = some none := by
  have htrimStart : trimStart part = [] := by simpa [trimStart] using hblank
  rw [trimmed?, slice?_eq before part after hquery hstart hstop]
  simp [htrimStart, trimEnd, dropTrailing_eq_nil hblank, sub?]

theorem trimmed?_core {query : List Char} {start stop : Nat} (before front core back after : List Char)
    (hquery : query = before ++ (front ++ core ++ back) ++ after) (hstart : start = byteSize before)
    (hstop : stop = byteSize before + byteSize (front ++ core ++ back))
    (hfront : ∀ c ∈ front, isBlank c = true) (hback : ∀ c ∈ back, isBlank c = true)
    (hhead : ∃ c ∈ core.head?, isBlank c = false) (hlast : ∃ c ∈ core.getLast?, isBlank c = false) :
    trimmed? query start stop =
      some (some ⟨start + byteSize front, start + byteSize front + byteSize core⟩) := by
  have hcore : 0 < byteSize core := by
    obtain ⟨c, hc, -⟩ := hhead
    cases core with
    | nil => simp at hc
    | cons d core =>
        have := d.utf8Size_pos
        simp
        omega
  rw [trimmed?, slice?_eq before _ after hquery hstart hstop]
  simp only [Option.bind_eq_bind, Option.bind_some, trimStart, trimEnd, dropWhile_core hfront hhead,
    dropTrailing_core hback hlast]
  simp only [byteSize_append] at hstop ⊢
  rw [sub?_eq (by omega), Option.bind_some, sub?_eq (by omega), Option.bind_some,
    if_neg (by omega), sub?_eq (by omega), Option.bind_some]
  congr 3 <;> omega

def spansAt (offset : Nat) (layout : Layout) : List Span :=
  Stage.spans (fun row => byteSize (text row)) (offset + byteSize (text layout.lead)) layout.stages

theorem stageSpans_eq (scan : Scan) : scan.stageSpans = spansAt 0 scan.layout := by
  simp [Scan.stageSpans, Layout.spans, spansAt]

theorem trimmed?_segment {query : List Char} {start stop : Nat} (before after : List Char)
    {segment : List Cell} (hsegment : ∀ cell ∈ segment, cell.isSeparator = false)
    (hquery : query = before ++ text segment ++ after) (hstart : start = byteSize before)
    (hstop : stop = byteSize before + byteSize (text segment)) {layout : Layout}
    (hlayout : layout.stages = [] ∨ layout.lead.any Cell.isSeparator = true) :
    ∃ stage, trimmed? query start stop = some stage ∧
      spansAt start (segment.foldr Layout.cons layout) =
        stage.toList ++ spansAt stop layout := by
  rcases all_or_exists_core (p := fun cell : Cell => isBlank cell.char) segment with
    hblank | ⟨front, core, back, rfl, hfront, hback, hhead, hlast⟩
  · refine ⟨none, trimmed?_blank before (text segment) after hquery hstart hstop
      (forall_mem_text hblank), ?_⟩
    rw [Layout.foldr_cons_blank fun cell hcell => by simp [Cell.isGap, hblank cell hcell]]
    simp [spansAt, hstart, hstop, Nat.add_assoc]
  · refine ⟨_, trimmed?_core before (text front) (text core) (text back) after (by simpa using hquery)
      hstart (by simpa using hstop) (forall_mem_text hfront) (forall_mem_text hback)
      (exists_head?_text hhead) (exists_getLast?_text hlast), ?_⟩
    rw [Layout.foldr_cons_core hsegment hfront hback hhead hlast hlayout]
    simp [spansAt, Stage.spans, hstart, hstop, Nat.add_assoc]

theorem stagesFrom?_eq {query : List Char} {row : List Cell}
    (hrow : ∀ cell ∈ row, cell.isSeparator = true → cell.char = '|') (before segment : List Cell)
    (hsegment : ∀ cell ∈ segment, cell.isSeparator = false)
    (hquery : query = text before ++ text segment ++ text row) :
    stagesFrom? query (byteSize (text before))
        (offsetsOf Cell.isSeparator (byteSize (text before) + byteSize (text segment)) row
          ++ [byteSize query]) =
      some (spansAt (byteSize (text before)) (.ofCells (segment ++ row))) := by
  induction row generalizing before segment with
  | nil =>
      obtain ⟨stage, htrimmed, hspans⟩ :=
        trimmed?_segment (text before) [] hsegment (by simpa using hquery) rfl rfl
          (show (⟨[], []⟩ : Layout).stages = [] ∨ _ from .inl rfl)
      have hsize : byteSize query = byteSize (text before) + byteSize (text segment) := by
        simp [hquery]
      rw [offsetsOf, List.nil_append, stagesFrom?, hsize, htrimmed, List.append_nil, Layout.ofCells,
        hspans]
      rfl
  | cons cell row ih =>
      cases hcell : cell.isSeparator with
      | false =>
          have := ih (fun c hc => hrow c (by simp [hc])) before (segment ++ [cell])
            (by simpa [hcell, or_imp, forall_and] using hsegment) (by simp [hquery])
          simpa [offsetsOf, hcell, Nat.add_assoc] using this
      | true =>
          have hchar : cell.char = '|' := hrow cell (by simp) hcell
          have hgap : cell.isGap = true := by simp [Cell.isGap, hcell]
          have hnext := ih (fun c hc => hrow c (by simp [hc])) (before ++ segment ++ [cell]) []
            (by simp) (by simp [hquery])
          obtain ⟨stage, htrimmed, hspans⟩ :=
            trimmed?_segment (text before) (text (cell :: row)) hsegment hquery rfl rfl
              (show (Layout.cons cell (.ofCells row)).stages = [] ∨
                  (Layout.cons cell (.ofCells row)).lead.any Cell.isSeparator = true by
                right; simp [Layout.cons, hgap, hcell])
          have hone : cell.char.utf8Size = 1 := by rw [hchar]; rfl
          have hstart : min (byteSize (text before) + byteSize (text segment) + 1) (byteSize query) =
              byteSize (text (before ++ segment ++ [cell])) := by
            simp [hquery, hone]
            omega
          have hsplit : Layout.ofCells (segment ++ cell :: row) =
              segment.foldr Layout.cons (Layout.cons cell (.ofCells row)) := by
            simp [Layout.ofCells]
          rw [offsetsOf]
          simp only [hcell, if_true, List.cons_append, stagesFrom?, htrimmed, hstart]
          simp only [text_nil, byteSize_nil, Nat.add_zero, List.nil_append] at hnext
          rw [hsplit, hspans]
          simp only [Option.bind_eq_bind, Option.bind_some]
          have hoffset : byteSize (text before) + byteSize (text segment) + cell.char.utf8Size =
              byteSize (text (before ++ segment ++ [cell])) := by simp [Nat.add_assoc]
          rw [hoffset, hnext]
          simp [spansAt, Layout.cons, hgap, Nat.add_assoc]

theorem Sweep.Tracks.openLiteral {sweep : Sweep} {query : List Char}
    (h : sweep.Tracks (cells query) (Scanner.finish {} query) []) :
    sweep.openLiteral = (scan query).openLiteral := by
  have hmode := h.mode
  have hstart := h.start
  rw [Sweep.openLiteral, Scan.openLiteral]
  simp only [scan]
  cases hinside : sweep.inside with
  | none =>
      rw [hinside] at hmode
      cases hflags : sweep.flagBytes <;> simp [hmode, hflags, Mode.beforeFlags]
  | some literal =>
      rw [hinside] at hmode
      cases literal with
      | double => simp [hmode]
      | single | regex => simp [hmode, hstart _ hinside (by simp)]

theorem scan?_eq (query : List Char) : scan? query = some (view query) := by
  have hstart : Sweep.Tracks { marks := List.replicate (byteSize query) false } [] {} query :=
    ⟨by simp, rfl, rfl, rfl, rfl, rfl, by simp, by simp, by simp⟩
  obtain ⟨sweep, hrun, htracks⟩ := hstart.run rfl
  change sweep.Tracks (cells query) (Scanner.finish {} query) [] at htracks
  have hstages := stagesFrom?_eq (show ∀ cell ∈ cells query, _ from
    fun cell hcell => Scanner.char_of_isSeparator hcell) [] [] (by simp) (text_cells query).symm
  simp only [text_nil, byteSize_nil, Nat.add_zero, List.nil_append] at hstages hrun
  rw [scan?, hrun]
  simp only [Option.bind_eq_bind, Option.bind_some]
  rw [htracks.separators, hstages]
  simp only [Option.bind_some, view, stageSpans_eq, htracks.openLiteral, htracks.quotes,
    htracks.marks, byteSize_nil, List.replicate_zero, List.append_nil]
  rfl

end OpalRepair.Bytes
