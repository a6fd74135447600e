import Mathlib
import OpalRepair.Proofs.Alike
import OpalRepair.Proofs.Layout

/-!
# Queries joined by a pipe

A pipe that separates stages cuts the reading of a query in two: neither side is read differently
because of the other, unless the right side starts with a slash or a backslash.
-/

namespace OpalRepair.Query

open Text

/-! ## Offsets -/

theorem lt_of_mem_offsetsOf {p : Cell → Bool} {offset n : Nat} {row : List Cell}
    (h : n ∈ offsetsOf p offset row) : n < offset + byteSize (text row) := by
  induction row generalizing offset with
  | nil => simp [offsetsOf] at h
  | cons cell row ih =>
      have hpos := cell.char.utf8Size_pos
      have hrest : n ∈ offsetsOf p (offset + cell.char.utf8Size) row →
          n < offset + byteSize (text (cell :: row)) := by
        intro hn
        have := ih hn
        simp only [text_cons, byteSize_cons]
        omega
      rw [offsetsOf] at h
      split at h
      · rcases List.mem_cons.mp h with rfl | h
        · simp only [text_cons, byteSize_cons]
          omega
        · exact hrest h
      · exact hrest h

theorem offsetsOf_shift (p : Cell → Bool) (shift offset : Nat) (row : List Cell) :
    offsetsOf p (offset + shift) row = (offsetsOf p offset row).map (· + shift) := by
  induction row generalizing offset with
  | nil => rfl
  | cons cell row ih =>
      have hnext : offset + shift + cell.char.utf8Size = offset + cell.char.utf8Size + shift := by
        omega
      simp only [offsetsOf, hnext, ih]
      split <;> simp

/-! ## Scanning on both sides of a cut -/

namespace Scanner

theorem paint_cut (s : Scanner) (part : List Char) {rest : List Char}
    (hrest : ∀ c ∈ rest.head?, isNameChar c = false) :
    s.paint (part ++ rest) = s.paint part ++ (s.finish part).paint rest := by
  have hname : rest.takeWhile isNameChar = ([] : List Char).takeWhile isNameChar := by
    cases rest with
    | nil => rfl
    | cons c rest => simp [hrest c rfl]
  obtain ⟨hpart, hreach⟩ := (Alike.refl s).paintPart hname part
  rw [paint_append, hpart, ← paint_eq_paintPart, hreach.paint, ← finish_eq_reach]

theorem finish_cut (s : Scanner) (part : List Char) {rest : List Char}
    (hrest : ∀ c ∈ rest.head?, isNameChar c = false) :
    (s.finish (part ++ rest)).Alike ((s.finish part).finish rest) := by
  have hname : rest.takeWhile isNameChar = ([] : List Char).takeWhile isNameChar := by
    cases rest with
    | nil => rfl
    | cons c rest => simp [hrest c rfl]
  obtain ⟨-, hreach⟩ := (Alike.refl s).paintPart hname part
  rw [finish_append, finish_eq_reach s part]
  exact hreach.finish rest

theorem escaped_of_separator {s : Scanner} {c : Char} {rest : List Char}
    (h : (s.step c rest).1 = .separator) : s.escaped = false := by
  have hmode : s.mode = .code := mode_of_code (by rw [h]; rfl)
  cases hescaped : s.escaped with
  | false => rfl
  | true => simp [step, hmode, hescaped] at h

/-- Neither a slash nor a backslash is the first character of the text that is not blank. -/
def Fresh (text : List Char) : Prop :=
  (trimStart text).head? ≠ some '/' ∧ (trimStart text).head? ≠ some '\\'

theorem step_last {c : Char} (hblank : isBlank c = false) (hc : c ≠ '/' ∧ c ≠ '\\')
    (last last' : Option Char) (rest : List Char) :
    (atCode last).step c rest = (atCode last').step c rest := by
  have hopened : Literal.openedBy? last c = Literal.openedBy? last' c := by
    simp [Literal.openedBy?, hc.1]
  simp [step, atCode, hc.2, hopened, significant, hblank]

theorem read_fresh {query : List Char} (h : Fresh query) (last last' : Option Char) :
    (atCode last).paint query = (atCode last').paint query ∧
      ((atCode last).finish query).mode = ((atCode last').finish query).mode := by
  induction query with
  | nil => exact ⟨rfl, rfl⟩
  | cons c rest ih =>
      cases hblank : isBlank c with
      | true =>
          have hpipe : c ≠ '|' := by rintro rfl; revert hblank; decide
          have hstep (last : Option Char) : (atCode last).step c rest = (.code, atCode last) := by
            rw [step_atCode (plain_of_isBlank hblank) hpipe, significant, if_pos hblank]
          have hrest : Fresh rest := by
            simpa [Fresh, trimStart, hblank] using h
          simpa [paint, finish, hstep] using ih hrest
      | false =>
          have hc : c ≠ '/' ∧ c ≠ '\\' := by simpa [Fresh, trimStart, hblank] using h
          have hstep := step_last hblank hc last last' rest
          exact ⟨by rw [paint, paint, hstep], by rw [finish, finish, hstep]⟩

end Scanner

theorem scan_pipe {a b : List Char} (hmode : (scan a).final.mode = .code)
    (hescaped : (scan a).final.escaped = false) (hb : Scanner.Fresh b) :
    cells (a ++ '|' :: b) = cells a ++ ⟨'|', .separator⟩ :: cells b ∧
      (scan (a ++ '|' :: b)).final.mode = (scan b).final.mode := by
  have hpipe : ∀ c ∈ ('|' :: b).head?, isNameChar c = false := by simp; decide
  have hstate : (scan a).final.Alike (Scanner.atCode (scan a).final.last) :=
    Scanner.alike_atCode hmode hescaped
  obtain ⟨hpaint, hfinish⟩ := Scanner.reads_separator (scan a).final.last b
  obtain ⟨hcells, hfinal⟩ := Scanner.read_fresh hb (some '|') none
  constructor
  · calc cells (a ++ '|' :: b)
        = cells a ++ (scan a).final.paint ('|' :: b) := Scanner.paint_cut _ _ hpipe
      _ = cells a ++ ⟨'|', .separator⟩ :: (Scanner.atCode (some '|')).paint b := by
          rw [hstate.paint]
          exact congrArg _ hpaint
      _ = cells a ++ ⟨'|', .separator⟩ :: cells b := by
          rw [hcells]
          rfl
  · calc (scan (a ++ '|' :: b)).final.mode
        = ((scan a).final.finish ('|' :: b)).mode := (Scanner.finish_cut _ _ hpipe).mode
      _ = ((Scanner.atCode (some '|')).finish b).mode := by
          rw [(hstate.finish _).mode]
          exact congrArg Scanner.mode hfinish
      _ = (scan b).final.mode := hfinal

def gapRow : List Cell := [⟨' ', .code⟩, ⟨'|', .separator⟩, ⟨' ', .code⟩]

theorem Scanner.step_space {s : Scanner} (hmode : s.mode = .code) (rest : List Char) :
    (s.step ' ' rest).1 = .code ∧ (s.step ' ' rest).2.mode = .code ∧
      (s.step ' ' rest).2.escaped = false := by
  obtain ⟨-, hcode, hescaped⟩ :=
    Scanner.step_plain hmode (plain_of_isBlank (show isBlank ' ' = true by decide)) rest
  refine ⟨?_, hcode, hescaped⟩
  have hopened : Literal.openedBy? s.last ' ' = none := by simp [Literal.openedBy?]
  simp only [Scanner.step, hmode, hopened]
  split_ifs <;> simp_all

theorem scan_join {a b : List Char} (ha : (scan a).final.mode = .code) (hb : Scanner.Fresh b) :
    cells (a ++ " | ".toList ++ b) = cells a ++ gapRow ++ cells b ∧
      (scan (a ++ " | ".toList ++ b)).final.mode = (scan b).final.mode := by
  have hspace : ∀ c ∈ [' '].head?, isNameChar c = false := by simp; decide
  obtain ⟨hrole, hmode, hescaped⟩ := Scanner.step_space ha []
  have hfront : cells (a ++ [' ']) = cells a ++ [⟨' ', .code⟩] := by
    calc cells (a ++ [' ']) = cells a ++ (scan a).final.paint [' '] := Scanner.paint_cut _ _ hspace
      _ = cells a ++ [⟨' ', ((scan a).final.step ' ' []).1⟩] := rfl
      _ = cells a ++ [⟨' ', .code⟩] := by rw [hrole]
  have hfinal : (scan (a ++ [' '])).final.Alike ((scan a).final.step ' ' []).2 :=
    Scanner.finish_cut _ _ hspace
  have htext : a ++ " | ".toList ++ b = (a ++ [' ']) ++ '|' :: (' ' :: b) := by simp
  have hfresh : Scanner.Fresh (' ' :: b) := hb
  obtain ⟨hcells, hend⟩ :=
    scan_pipe (hfinal.mode.trans hmode) (hfinal.escaped.trans hescaped) hfresh
  have hback : cells (' ' :: b) = ⟨' ', .code⟩ :: cells b := rfl
  rw [htext, hcells, hfront, hend, hback]
  exact ⟨by simp [gapRow], rfl⟩

/-! ## Layouts on both sides of a separator -/

def Stage.widenLast (gap : List Cell) : List Stage → List Stage
  | [] => []
  | stage :: stages =>
    { stage with gap := if stages.isEmpty then stage.gap ++ gap else stage.gap } ::
      widenLast gap stages

@[simp] theorem Stage.map_body_widenLast (gap : List Cell) (stages : List Stage) :
    (Stage.widenLast gap stages).map Stage.body = stages.map Stage.body := by
  induction stages with
  | nil => rfl
  | cons stage stages ih => simp [widenLast, ih]

namespace Layout

def append (front back : Layout) : Layout :=
  if front.stages.isEmpty then ⟨front.lead ++ back.lead, back.stages⟩
  else ⟨front.lead, Stage.widenLast back.lead front.stages ++ back.stages⟩

theorem append_nil (lead : List Cell) (back : Layout) :
    append ⟨lead, []⟩ back = ⟨lead ++ back.lead, back.stages⟩ := rfl

theorem append_cons (lead : List Cell) (stage : Stage) (stages : List Stage) (back : Layout) :
    append ⟨lead, stage :: stages⟩ back =
      ⟨lead, Stage.widenLast back.lead (stage :: stages) ++ back.stages⟩ := rfl

theorem cons_append (cell : Cell) (front : Layout) {back : Layout}
    (hback : back.stages = [] ∨ back.lead.any Cell.isSeparator = true) :
    cons cell (front.append back) = (cons cell front).append back := by
  obtain ⟨lead, stages⟩ := front
  cases hgap : cell.isGap with
  | true => cases stages <;> simp [cons, hgap, append]
  | false =>
      cases stages with
      | nil =>
          have hapart : back.stages = [] ∨ (lead ++ back.lead).any Cell.isSeparator = true :=
            hback.imp_right fun h => by simp [h]
          rw [append_nil, cons_first hgap hapart, cons_first hgap (.inl rfl)]
          rfl
      | cons stage stages =>
          by_cases hlead : lead.any Cell.isSeparator = true
          · simp [cons, hgap, append_cons, Stage.widenLast, hlead]
          · simp [cons, hgap, append_cons, Stage.widenLast, hlead]

theorem exists_cons {cell : Cell} (hcell : cell.isGap = false) (layout : Layout) :
    ∃ body gap stages, cons cell layout = ⟨[], ⟨cell :: body, gap⟩ :: stages⟩ := by
  unfold cons
  rw [if_neg (by simp [hcell])]
  split
  · exact ⟨[], _, _, rfl⟩
  · split
    · exact ⟨[], _, _, rfl⟩
    · exact ⟨_, _, _, rfl⟩

theorem foldr_cons_apart (row : List Cell) {layout : Layout}
    (hlayout : layout.stages = [] ∨ layout.lead.any Cell.isSeparator = true) :
    row.foldr cons layout = (ofCells row).append layout := by
  induction row with
  | nil => simp [ofCells, append]
  | cons cell row ih => rw [List.foldr_cons, ih, cons_append _ _ hlayout]; rfl

theorem ofCells_separator (a b : List Cell) {cell : Cell} (hcell : cell.isSeparator = true) :
    ofCells (a ++ cell :: b) = (ofCells a).append (cons cell (ofCells b)) := by
  rw [ofCells, List.foldr_append]
  refine foldr_cons_apart a (.inr ?_)
  simp [cons, Cell.isGap, hcell]

theorem map_body_append (front back : Layout) :
    (front.append back).stages.map Stage.body =
      front.stages.map Stage.body ++ back.stages.map Stage.body := by
  obtain ⟨lead, stages⟩ := front
  cases stages <;> simp [append]

end Layout

theorem map_body_separator (a b : List Cell) {cell : Cell} (hcell : cell.isSeparator = true) :
    (Layout.ofCells (a ++ cell :: b)).stages.map Stage.body =
      (Layout.ofCells a).stages.map Stage.body ++ (Layout.ofCells b).stages.map Stage.body := by
  rw [Layout.ofCells_separator a b hcell, Layout.map_body_append]
  simp [Layout.cons, Cell.isGap, hcell]

theorem map_body_gapRow (a b : List Cell) :
    (Layout.ofCells (a ++ gapRow ++ b)).stages.map Stage.body =
      (Layout.ofCells a).stages.map Stage.body ++ (Layout.ofCells b).stages.map Stage.body := by
  have hrow : a ++ gapRow ++ b = (a ++ [⟨' ', .code⟩]) ++ ⟨'|', .separator⟩ :: (⟨' ', .code⟩ :: b) := by
    simp [gapRow]
  have hspace : Cell.isGap ⟨' ', .code⟩ = true := rfl
  have hfront : Layout.ofCells (a ++ [⟨' ', .code⟩]) =
      (Layout.ofCells a).append ⟨[⟨' ', .code⟩], []⟩ := by
    rw [Layout.ofCells, List.foldr_append]
    exact Layout.foldr_cons_apart a (.inl rfl)
  have hback : (Layout.ofCells (⟨' ', .code⟩ :: b)).stages = (Layout.ofCells b).stages := by
    rw [Layout.ofCells, List.foldr_cons, Layout.cons, if_pos hspace]
    rfl
  rw [hrow, map_body_separator _ _ rfl, hfront, Layout.map_body_append, hback]
  simp

theorem split_eq_map_body (query : List Char) :
    split query = ((layout query).stages.map Stage.body).map text := by
  simp [split, Stage.text, Function.comp_def]

/-! ## Splitting -/

theorem finish_of_separator {a : List Char}
    (hpipe : byteSize a ∈ (scan (a ++ ['|'])).separators) :
    (scan a).final.mode = .code ∧ (scan a).final.escaped = false := by
  have hcells : (scan (a ++ ['|'])).cells = cells a ++ (scan a).final.paint ['|'] :=
    Scanner.paint_cut _ _ (by simp; decide)
  rw [Scan.separators, hcells, offsetsOf_append, List.mem_append] at hpipe
  rcases hpipe with hpipe | hpipe
  · have hlt := lt_of_mem_offsetsOf hpipe
    rw [text_cells] at hlt
    omega
  · have hrole : ((scan a).final.step '|' []).1 = .separator := by
      by_contra hrole
      simp [Scanner.paint, offsetsOf, Cell.isSeparator, hrole] at hpipe
    exact ⟨Scanner.mode_of_code (by rw [hrole]; rfl), Scanner.escaped_of_separator hrole⟩

/-- A pipe that separates cuts a query into two that are scanned and split on their own. -/
theorem split_at_separator {a b : List Char}
    (hpipe : byteSize a ∈ (scan (a ++ ['|'])).separators)
    (hb : (trimStart b).head? ≠ some '/' ∧ (trimStart b).head? ≠ some '\\') :
    split (a ++ '|' :: b) = split a ++ split b ∧
      (scan (a ++ '|' :: b)).literalMask =
        (scan a).literalMask ++ false :: (scan b).literalMask ∧
      (scan (a ++ '|' :: b)).separators =
        (scan a).separators ++ byteSize a ::
          (scan b).separators.map (· + (byteSize a + 1)) := by
  obtain ⟨hmode, hescaped⟩ := finish_of_separator hpipe
  obtain ⟨hcells, -⟩ := scan_pipe hmode hescaped hb
  refine ⟨?_, ?_, ?_⟩
  · rw [split_eq_map_body, layout, hcells, map_body_separator _ _ rfl, List.map_append,
      split_eq_map_body, split_eq_map_body]
    rfl
  · rw [literalMask_eq, scan, hcells, mask_append, mask_cons]
    rfl
  · have hoffset : 0 + byteSize (text (cells a)) = byteSize a := by simp
    have hwidth : ('|' : Char).utf8Size = 1 := rfl
    have hshift := offsetsOf_shift Cell.isSeparator (byteSize a + 1) 0 (cells b)
    rw [Nat.zero_add] at hshift
    rw [Scan.separators, scan, hcells, offsetsOf_append, hoffset, offsetsOf, hwidth, hshift]
    rfl

/-- Pipes in a regex, in a string and behind a backslash do not separate. -/
theorem split_at_separator_literals :
    split ("filter x ~ /a|b/i ".toList ++ '|' :: " filter y = \"c|d\" \\| z | limit 1".toList) =
      ["filter x ~ /a|b/i".toList, "filter y = \"c|d\" \\| z".toList, "limit 1".toList] := by
  have hpipe : byteSize "filter x ~ /a|b/i ".toList ∈
      (scan ("filter x ~ /a|b/i ".toList ++ ['|'])).separators := by decide
  rw [(split_at_separator hpipe (by decide)).1]
  decide

end OpalRepair.Query
