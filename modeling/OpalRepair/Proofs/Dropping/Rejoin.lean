import Mathlib
import OpalRepair.Pass.DropTimeFilter
import OpalRepair.Proofs.Counting.Repaint

/-!
# Reading a query without some of its stages

Stages that are left out take the gap behind them along, except that the last gap of the query stays
at its end.  The stages that stay start with a name, so they are read as before wherever they come to
stand.  Only the end needs care: a backslash at the end of the last stage makes the last gap lose its
first separator to that stage.
-/

namespace OpalRepair.Query

open Text

/-! ## The end of a query -/

namespace Scanner

variable {s t : Scanner}

theorem paint_pipes (last : Option Char) {tail : List Char}
    (htail : ∀ c ∈ tail, c = '|' ∨ isBlank c = true) :
    (∀ cell ∈ (atCode last).paint tail, cell.isGap = true) ∧
      ((atCode last).finish tail).mode = .code := by
  induction tail generalizing last with
  | nil => exact ⟨by simp [paint], rfl⟩
  | cons c tail ih =>
      obtain ⟨hc, hrest⟩ := List.forall_mem_cons.mp htail
      rw [paint, finish, List.forall_mem_cons]
      rcases hc with rfl | hblank
      · exact ⟨⟨rfl, (ih (some '|') hrest).1⟩, (ih (some '|') hrest).2⟩
      · rw [step_blank rfl hblank]
        exact ⟨⟨by simp [Cell.isGap, hblank], (ih last hrest).1⟩, (ih last hrest).2⟩

theorem paint_tail (hmode : s.mode = .code) {tail : List Char}
    (htail : ∀ c ∈ tail, c = '|' ∨ isBlank c = true) :
    ∃ swallowed rest, s.paint tail = swallowed ++ rest ∧ (∀ cell ∈ rest, cell.isGap = true) ∧
      (swallowed = [] ∨ swallowed = [⟨'|', .code⟩] ∧ s.escaped = true) ∧
      (s.finish tail).mode = .code := by
  obtain ⟨mode, escaped, last⟩ := s
  obtain rfl : mode = .code := hmode
  cases escaped with
  | false =>
      obtain ⟨hgap, hfinish⟩ := paint_pipes last htail
      exact ⟨[], _, rfl, hgap, .inl rfl, hfinish⟩
  | true =>
      cases tail with
      | nil => exact ⟨[], [], rfl, by simp, .inl rfl, rfl⟩
      | cons c tail =>
          obtain ⟨hc, hrest⟩ := List.forall_mem_cons.mp htail
          rw [paint, finish]
          rcases hc with rfl | hblank
          · obtain ⟨hgap, hfinish⟩ := paint_pipes (some '|') hrest
            exact ⟨[⟨'|', .code⟩], _, rfl, hgap, .inr ⟨rfl, rfl⟩, hfinish⟩
          · rw [step_blank rfl hblank]
            obtain ⟨hgap, hfinish⟩ := paint_pipes last hrest
            refine ⟨[], _, rfl, ?_, .inl rfl, hfinish⟩
            rw [List.forall_mem_cons]
            exact ⟨by simp [Cell.isGap, hblank], hgap⟩

def Composed (s : Scanner) : Prop := ∀ more, s.mode = .flags more → s.escaped = false

theorem Composed.step (h : s.Composed) (c : Char) (rest : List Char) :
    (s.step c rest).2.Composed ∧ ((s.step c rest).2.escaped = true → c = '\\') := by
  -- Either the character is a backslash, or nothing is escaped behind it.
  have hclear {next : Scanner} (hnext : next.escaped = false) :
      next.Composed ∧ (next.escaped = true → c = '\\') :=
    ⟨fun _ _ => hnext, fun hafter => by simp [hnext] at hafter⟩
  rw [Scanner.step]
  cases hmode : s.mode with
  | flags more => exact hclear (h more hmode)
  | code =>
      cases hescaped : s.escaped with
      | true => exact hclear rfl
      | false =>
          by_cases hback : c = '\\'
          · rw [if_neg (by simp), if_pos hback]
            exact ⟨fun _ hflags => by simp at hflags, fun _ => hback⟩
          · rw [if_neg (by simp), if_neg hback]
            cases Literal.openedBy? s.last c <;> exact hclear rfl
  | inside literal =>
      cases hescaped : s.escaped with
      | true => exact hclear rfl
      | false =>
          by_cases hback : c = '\\'
          · dsimp only
            rw [if_neg (by simp), if_pos hback]
            exact ⟨fun _ hflags => by simp at hflags, fun _ => hback⟩
          · dsimp only
            rw [if_neg (by simp), if_neg hback]
            split <;> exact hclear rfl

theorem getLast?_of_escaped (hs : s.mode = .code) {rest part : List Char} (hne : part ≠ [])
    (h : (s.reach rest part).escaped = true) : part.getLast? = some '\\' := by
  have hcomposed : s.Composed := fun more hflags => by simp [hs] at hflags
  clear hs
  induction part generalizing s with
  | nil => exact absurd rfl hne
  | cons c part ih =>
      obtain ⟨hnext, hback⟩ := hcomposed.step c (part ++ rest)
      cases part with
      | nil => rw [hback h, List.getLast?_singleton]
      | cons d part => exact ih (by simp) h hnext

/-- Behind a character that neither belongs to a name nor closes a regex all texts are reached
alike. -/
theorem Paints.reach_firm {a b : List Cell} (h : s.Paints (a ++ b))
    (hlast : ∀ cell ∈ a.getLast?, isNameChar cell.char = false ∧
      ¬ (cell.char = '/' ∧ cell.role = .closing)) (rest : List Char) :
    (s.reach (text b) (text a)).Alike (s.reach rest (text a)) := by
  rcases a.eq_nil_or_concat' with rfl | ⟨front, cell, rfl⟩
  · exact Alike.refl s
  · obtain ⟨hname, hslash⟩ := hlast cell (by simp)
    rw [List.append_assoc, List.singleton_append] at h
    have hrole := h.role
    have hsame : (text (cell :: b)).takeWhile isNameChar =
        (cell.char :: rest).takeWhile isNameChar := by
      simp [hname]
    have hfront := ((Alike.refl s).paintPart hsame (text front)).2
    have hflags : (s.reach (text (cell :: b)) (text front)).Heeds cell.char →
        regexFlagCount (text b) = regexFlagCount rest := fun hheeds =>
      absurd ⟨hheeds.2.2, by rw [← hrole, hheeds.role]⟩ hslash
    have hnext := (hfront.step cell.char hflags).2
    rw [reach_concat, text_append, reach_append]
    exact hnext

end Scanner

/-! ## Stages that stay -/

def Stage.Headed (stage : Stage) : Prop :=
  ∃ first rest, stage.body = first :: rest ∧ first.isLiteral = false ∧ Solid first.char

theorem headed_of_verb? {query : List Char} {stage : Stage}
    (hstage : stage ∈ (layout query).stages) (hverb : stage.verb?.isSome = true) : stage.Headed := by
  obtain ⟨verb, hverb⟩ := Option.isSome_iff_exists.mp hverb
  rw [← map_snd_places] at hstage
  obtain ⟨place, hplace, rfl⟩ := List.mem_map.mp hstage
  obtain ⟨first, rest, hbody, hname, hcode⟩ := exists_first_of_verb? hplace hverb
  exact ⟨first, rest, hbody, hcode, solid_of_isNameChar hname⟩

theorem Scanner.Paints.char_of_gap {s : Scanner} {row : List Cell} (h : s.Paints row) {cell : Cell}
    (hcell : cell ∈ row) (hgap : cell.isGap = true) : cell.char = '|' ∨ isBlank cell.char = true := by
  rcases Bool.or_eq_true_iff.mp hgap with hseparator | hblank
  · rw [← h] at hcell
    exact .inl (Scanner.char_of_isSeparator hcell hseparator)
  · exact .inr hblank

section Read

open Scanner

variable {stage : Stage} {behind : List Cell} {last : Option Char} {t : Scanner}

theorem fresh_of_headed (h : stage.Headed) (hpaints : (atCode last).Paints (stage.cells ++ behind))
    (ht : t.mode = .code) : t.Paints (stage.cells ++ behind) ∧ ∀ more rest,
      t.reach rest (text (stage.body ++ more)) =
        (atCode last).reach rest (text (stage.body ++ more)) := by
  obtain ⟨first, row, hbody, hcode, hsolid⟩ := h
  rw [Stage.cells, hbody, List.append_assoc, List.cons_append] at hpaints ⊢
  obtain ⟨hfresh, hreach⟩ := hpaints.fresh hcode hsolid ht
  exact ⟨hfresh, fun more rest => hreach _ _⟩

theorem reach_of_apart (htrimmed : stage.Trimmed)
    (hpaints : (atCode last).Paints (stage.cells ++ behind))
    (hapart : stage.gap.any Cell.isSeparator = true) :
    ((atCode last).reach (text (stage.gap ++ behind)) (text stage.body)).mode = .code ∧
      (atCode last).reach (text behind) (text stage.cells) = atCode (some '|') ∧
      (atCode (some '|')).Paints behind := by
  rw [Stage.cells, List.append_assoc] at hpaints
  have hahead : (atCode last).FlagsAhead (text (stage.body ++ (stage.gap ++ behind))) :=
    fun more hmode => by simp [atCode] at hmode
  have hgapPaints := (paints_append.mp hpaints).2
  have hmode := FlagCount.mode_of_apart hgapPaints hahead.reach_row htrimmed.gap hapart
  obtain ⟨hbehind, -⟩ := hgapPaints.gap_apart hmode htrimmed.gap hapart
  refine ⟨hmode, ?_, ?_⟩
  · rw [Stage.cells, text_append, reach_append, ← text_append, hbehind]
  · rw [← hbehind]
    exact (paints_append.mp hgapPaints).2

theorem firm_cells (htrimmed : stage.Trimmed) {s : Scanner}
    (hpaints : s.Paints (stage.cells ++ behind)) (hapart : stage.gap.any Cell.isSeparator = true) :
    ∀ cell ∈ stage.cells.getLast?, isNameChar cell.char = false ∧
      ¬ (cell.char = '/' ∧ cell.role = .closing) := by
  intro cell hcell
  rw [Stage.cells, List.append_assoc] at hpaints
  refine FlagCount.firm_gap (paints_append.mp hpaints).2 htrimmed.gap cell ?_
  have hne : stage.gap ≠ [] := by rintro hnil; simp [hnil] at hapart
  rwa [Stage.cells, List.getLast?_append_of_ne_nil _ hne] at hcell

theorem read_headed (h : stage.Headed) (htrimmed : stage.Trimmed)
    (hpaints : (atCode last).Paints (stage.cells ++ behind))
    (hapart : stage.gap.any Cell.isSeparator = true) (ht : t.mode = .code) (rest : List Char) :
    t.paint (text stage.cells ++ rest) = stage.cells ++ (atCode (some '|')).paint rest ∧
      (t.finish (text stage.cells ++ rest)).mode = ((atCode (some '|')).finish rest).mode := by
  obtain ⟨hfresh, hsame⟩ := fresh_of_headed h hpaints ht
  obtain ⟨-, hreach, -⟩ := reach_of_apart htrimmed hpaints hapart
  have hend : t.reach (text behind) (text stage.cells) = atCode (some '|') := by
    rw [← hreach]
    exact hsame stage.gap _
  have hfirm := firm_cells htrimmed hpaints hapart
  constructor
  · rw [hfresh.kept_firm (Alike.refl _) hfirm, hend]
  · rw [finish_append, ← ((hfresh.reach_firm hfirm rest).finish rest).mode, hend]

theorem read_last (h : stage.Headed) (htrimmed : stage.Trimmed)
    (hpaints : (atCode last).Paints (stage.cells ++ behind))
    (hapart : stage.gap.any Cell.isSeparator = true) (ht : t.mode = .code) {tail : List Char}
    (htail : ∀ c ∈ tail, c = '|' ∨ isBlank c = true) :
    ∃ swallowed gap, t.paint (text stage.body ++ tail) = stage.body ++ swallowed ++ gap ∧
      (∀ cell ∈ gap, cell.isGap = true) ∧
      (swallowed = [] ∨ swallowed = [⟨'|', .code⟩] ∧ stage.text.getLast? = some '\\') ∧
      (t.finish (text stage.body ++ tail)).mode = .code := by
  obtain ⟨hfresh, hsame⟩ := fresh_of_headed h hpaints ht
  obtain ⟨hmode, -, -⟩ := reach_of_apart htrimmed hpaints hapart
  rw [Stage.cells, List.append_assoc] at hfresh hpaints
  have hgapName : (text (stage.gap ++ behind)).takeWhile isNameChar = [] :=
    FlagCount.takeWhile_gap (paints_append.mp hpaints).2 htrimmed.gap
      fun hnil => by simp [hnil] at hapart
  have htailName : tail.takeWhile isNameChar = [] := by
    cases tail with
    | nil => rfl
    | cons c tail =>
        rcases htail c (by simp) with rfl | hblank
        · rfl
        · simp [isNameChar_of_isBlank hblank]
  have hname := hgapName.trans htailName.symm
  have hend : (t.reach (text (stage.gap ++ behind)) (text stage.body)).mode = .code := by
    have hbody := hsame [] (text (stage.gap ++ behind))
    rw [List.append_nil] at hbody
    rw [hbody, hmode]
  obtain ⟨swallowed, gap, hpaint, hgap, hswallowed, hfinish⟩ := paint_tail hend htail
  refine ⟨swallowed, gap, ?_, hgap, ?_, ?_⟩
  · rw [hfresh.kept (Alike.refl _) hname, hpaint, List.append_assoc]
  · refine hswallowed.imp id fun hpipe => ⟨hpipe.1, ?_⟩
    obtain ⟨first, row, hbody, -⟩ := h
    exact getLast?_of_escaped ht (by simp [Stage.text, hbody]) hpipe.2
  · rw [finish_append, ← (((Alike.refl t).paintPart hname _).2.finish tail).mode, hfinish]

end Read

/-! ## Leaving out stages -/

def lastGap (stages : List Stage) : List Cell := (stages.getLast?.map Stage.gap).getD []

theorem lastGap_cons (stage : Stage) {stages : List Stage} (h : stages ≠ []) :
    lastGap (stage :: stages) = lastGap stages := by
  obtain ⟨next, stages, rfl⟩ := List.exists_cons_of_ne_nil h
  rw [lastGap, lastGap, List.getLast?_cons_cons]

theorem mem_of_mem_lastGap {stages : List Stage} {cell : Cell} (h : cell ∈ lastGap stages) :
    ∃ stage ∈ stages, cell ∈ stage.gap := by
  cases hlast : stages.getLast? with
  | none => simp [lastGap, hlast] at h
  | some stage => exact ⟨stage, List.mem_of_getLast? hlast, by simpa [lastGap, hlast] using h⟩

open DropTimeFilter in
theorem join_cons (tail : List Cell) (stage : Stage) {stages : List Stage} (h : stages ≠ []) :
    join tail (stage :: stages) = stage.cells ++ join tail stages := by
  obtain ⟨next, stages, rfl⟩ := List.exists_cons_of_ne_nil h
  rfl

open Scanner DropTimeFilter in
theorem exists_paint_join (keep : Stage → Bool) {stages : List Stage} {last : Option Char}
    {t : Scanner} (hpaints : (atCode last).Paints (stages.flatMap Stage.cells))
    (hapart : Stage.Apart stages) (hheaded : ∀ stage ∈ stages, stage.Headed) (ht : t.mode = .code)
    {init : List Stage} {final : Stage} (hkept : stages.filter keep = init ++ [final]) :
    ∃ swallowed gap,
      t.paint (text (join (lastGap stages) (init ++ [final]))) =
        init.flatMap Stage.cells ++ (final.body ++ swallowed ++ gap) ∧
      (∀ cell ∈ gap, cell.isGap = true) ∧
      (swallowed = [] ∨ swallowed = [⟨'|', .code⟩] ∧ final.text.getLast? = some '\\') ∧
      (((atCode last).finish (text (stages.flatMap Stage.cells))).mode = .code →
        (t.finish (text (join (lastGap stages) (init ++ [final])))).mode = .code) := by
  induction stages generalizing last t init with
  | nil => simp at hkept
  | cons stage stages ih =>
      obtain ⟨htrimmed, hgap, hrest⟩ := hapart
      have hstage := hheaded stage (by simp)
      have hothers := fun other hother => hheaded other (List.mem_cons_of_mem stage hother)
      rw [List.flatMap_cons] at hpaints ⊢
      have hne {kept : List Stage} (h : stages.filter keep = kept ++ [final]) : stages ≠ [] := by
        rintro rfl
        simp at h
      cases hkeep : keep stage with
      | false =>
          rw [List.filter_cons_of_neg (by simp [hkeep])] at hkept
          obtain ⟨-, hreach, hbehind⟩ :=
            reach_of_apart htrimmed hpaints (hgap.resolve_left (hne hkept))
          rw [lastGap_cons stage (hne hkept), text_append, finish_append, hreach]
          exact ih hbehind hrest hothers ht hkept
      | true =>
          rw [List.filter_cons_of_pos hkeep] at hkept
          cases init with
          | cons other init =>
              obtain ⟨rfl, hmore⟩ := List.cons.inj hkept
              have hgap := hgap.resolve_left (hne hmore)
              obtain ⟨-, hreach, hbehind⟩ := reach_of_apart htrimmed hpaints hgap
              obtain ⟨swallowed, gap, hpaint, hgaps, hswallowed, hfinish⟩ :=
                ih hbehind hrest hothers (rfl : (atCode (some '|')).mode = .code) hmore
              refine ⟨swallowed, gap, ?_, hgaps, hswallowed, ?_⟩
              · rw [lastGap_cons stage (hne hmore), List.cons_append, join_cons _ _ (by simp),
                  text_append, (read_headed hstage htrimmed hpaints hgap ht _).1, hpaint,
                  List.flatMap_cons, List.append_assoc stage.cells]
              · rw [lastGap_cons stage (hne hmore), List.cons_append, join_cons _ _ (by simp),
                  text_append, text_append, (read_headed hstage htrimmed hpaints hgap ht _).2,
                  finish_append, hreach]
                exact hfinish
          | nil =>
              obtain ⟨rfl, -⟩ := List.cons.inj hkept
              by_cases hnil : stages = []
              · subst hnil
                obtain ⟨hfresh, hsame⟩ := fresh_of_headed hstage hpaints ht
                have hjoin : join (lastGap [stage]) ([] ++ [stage]) = stage.cells := rfl
                rw [List.flatMap_nil, List.append_nil] at hfresh ⊢
                refine ⟨[], stage.gap, ?_, htrimmed.gap, .inl rfl, fun hmode => ?_⟩
                · rw [hjoin, hfresh]
                  simp [Stage.cells]
                · have hreach : t.finish (text stage.cells) = (atCode last).finish (text stage.cells) := by
                    rw [finish_eq_reach, finish_eq_reach]
                    exact hsame stage.gap []
                  rw [hjoin, hreach, hmode]
              · -- The gap at the end belongs to a stage behind the last one that stays.
                have htail : ∀ c ∈ text (lastGap (stage :: stages)), c = '|' ∨ isBlank c = true := by
                  intro c hc
                  rw [lastGap_cons stage hnil] at hc
                  obtain ⟨cell, hcell, rfl⟩ := List.mem_map.mp hc
                  obtain ⟨other, hother, hcell⟩ := mem_of_mem_lastGap hcell
                  refine hpaints.char_of_gap (List.mem_append_right _ ?_)
                    ((hrest.trimmed other hother).gap cell hcell)
                  exact List.mem_flatMap.mpr ⟨other, hother, List.mem_append_right _ hcell⟩
                obtain ⟨swallowed, gap, hpaint, hgaps, hswallowed, hfinish⟩ :=
                  read_last hstage htrimmed hpaints (hgap.resolve_left hnil) ht htail
                have hjoin : join (lastGap (stage :: stages)) ([] ++ [stage]) =
                    stage.body ++ lastGap (stage :: stages) := rfl
                rw [hjoin, text_append]
                exact ⟨swallowed, gap, hpaint, hgaps, hswallowed, fun _ => hfinish⟩

/-! ## The layout without some stages -/

theorem Stage.Apart.sublist {a b : List Stage} (hsub : a.Sublist b) (h : Stage.Apart b) :
    Stage.Apart a := by
  induction hsub with
  | slnil => trivial
  | cons stage hsub ih => exact ih h.2.2
  | cons_cons stage hsub ih =>
      obtain ⟨htrimmed, hgap, hrest⟩ := h
      refine ⟨htrimmed, hgap.imp (fun hnil => ?_) id, ih hrest⟩
      subst hnil
      exact List.sublist_nil.mp hsub

theorem Stage.Apart.replace_last {init : List Stage} {last new : Stage}
    (h : Stage.Apart (init ++ [last])) (hnew : new.Trimmed) : Stage.Apart (init ++ [new]) := by
  induction init with
  | nil => exact ⟨hnew, .inl rfl, trivial⟩
  | cons stage init ih =>
      obtain ⟨htrimmed, hgap, hrest⟩ := h
      exact ⟨htrimmed, .inr (hgap.resolve_left (by simp)), ih hrest⟩

theorem Stage.Trimmed.swallow {stage : Stage} (h : stage.Trimmed) {swallowed gap : List Cell}
    (hswallowed : swallowed = [] ∨ swallowed = [⟨'|', .code⟩])
    (hgap : ∀ cell ∈ gap, cell.isGap = true) : Stage.Trimmed ⟨stage.body ++ swallowed, gap⟩ := by
  rcases hswallowed with rfl | rfl
  · rw [List.append_nil]
    exact ⟨h.head, h.last, h.body, hgap⟩
  · refine ⟨?_, ⟨⟨'|', .code⟩, by simp, rfl⟩, ?_, hgap⟩
    · obtain ⟨cell, hcell, hnogap⟩ := h.head
      exact ⟨cell, by simp [Option.mem_def.mp hcell], hnogap⟩
    · intro cell hcell
      rcases List.mem_append.mp hcell with hcell | hcell
      · exact h.body cell hcell
      · rw [List.mem_singleton.mp hcell]
        rfl

open Scanner in
theorem exists_lead (query : List Char) :
    ∃ last, (atCode none).reach (text ((layout query).stages.flatMap Stage.cells))
        (text (layout query).lead) = atCode last ∧
      (atCode last).Paints ((layout query).stages.flatMap Stage.cells) ∧
      ∀ rest, cells (text (layout query).lead ++ rest) =
        (layout query).lead ++ (atCode last).paint rest := by
  have hpaints : (atCode none).Paints (layout query).cells := by
    rw [layout, Layout.cells_ofCells]
    exact paints_cells query
  rw [Layout.cells] at hpaints
  obtain ⟨last, hreach, -, hread⟩ := hpaints.gap (Layout.gap_lead (cells query))
  have hstages := (paints_append.mp hpaints).2
  rw [hreach] at hstages
  exact ⟨last, hreach, hstages, hread⟩

open Scanner DropTimeFilter in
theorem exists_layout_join {query : List Char} (keep : Stage → Bool)
    (hnamed : ∀ stage ∈ (layout query).stages, stage.verb?.isSome = true) {init : List Stage}
    {final : Stage} (hkept : (layout query).stages.filter keep = init ++ [final]) {out : List Char}
    (hout : out = text ((layout query).lead ++
      join (lastGap (layout query).stages) ((layout query).stages.filter keep))) :
    ∃ swallowed gap,
      layout out = ⟨(layout query).lead, init ++ [⟨final.body ++ swallowed, gap⟩]⟩ ∧
      (swallowed = [] ∨ swallowed = [⟨'|', .code⟩] ∧ final.text.getLast? = some '\\') ∧
      ((scan query).final.mode = .code → (scan out).final.mode = .code) := by
  have hlead : ∀ cell ∈ (layout query).lead, cell.isGap = true := Layout.gap_lead (cells query)
  have hapart : Stage.Apart (layout query).stages := Layout.apart (cells query)
  have hcells := cells_eq_layout query
  have hpaints := paints_cells query
  rw [hcells] at hpaints
  obtain ⟨last, hreach, hstages, hread⟩ := exists_lead query
  obtain ⟨swallowed, gap, hpaint, hgap, hswallowed, hfinish⟩ :=
    exists_paint_join keep hstages hapart (fun stage hstage => headed_of_verb? hstage
      (hnamed stage hstage)) (rfl : (atCode last).mode = .code) hkept
  rw [hkept, text_append] at hout
  refine ⟨swallowed, gap, ?_, hswallowed, fun hmode => ?_⟩
  · have hrow : cells out = (layout query).lead ++
        (init ++ [(⟨final.body ++ swallowed, gap⟩ : Stage)]).flatMap Stage.cells := by
      rw [hout]
      refine (hread _).trans ?_
      rw [hpaint]
      simp [Stage.cells]
    have hkeptApart : Stage.Apart (init ++ [final]) := by
      rw [← hkept]
      exact hapart.sublist List.filter_sublist
    have hfinal : final.Trimmed := hkeptApart.trimmed final (by simp)
    rw [layout, hrow]
    exact Layout.ofCells_eq hlead (hkeptApart.replace_last
      (hfinal.swallow (hswallowed.imp id And.left) hgap))
  · have hfirm := FlagCount.firm_gap hpaints hlead
    have hquery : (scan query).final =
        (atCode last).finish (text ((layout query).stages.flatMap Stage.cells)) := by
      rw [← hreach, ← finish_append, ← text_append, ← hcells, text_cells]
      rfl
    have hrest := (hpaints.reach_firm hfirm
      (text (join (lastGap (layout query).stages) (init ++ [final])))).finish
        (text (join (lastGap (layout query).stages) (init ++ [final])))
    rw [hreach, ← finish_append, ← hout] at hrest
    exact hrest.mode.symm.trans (hfinish (hquery ▸ hmode))

end OpalRepair.Query
