import Mathlib
import OpalRepair.Proofs.Keeping.WellFormed
import OpalRepair.Proofs.Sorting.InPlace

/-!
# Mended sort stages are in order

A key that becomes a call keeps its field path, and the call opens as many delimiters as it closes.
What stands between the keys is no part of any word, so the keys are read one by one.

Main statement: `SortCall.wellFormed_after`.
-/

namespace OpalRepair

open Query Text

namespace Query

/-! ## Reading on -/

namespace Word

variable {row : List Cell}

theorem after_of_idle {row : List Cell} (h : ∀ cell ∈ row, idle.step cell = idle) :
    idle.after row = idle := by
  induction row with
  | nil => rfl
  | cons cell row ih =>
      obtain ⟨hcell, hrow⟩ := List.forall_mem_cons.mp h
      rw [after_cons, hcell, ih hrow]

theorem Sound.restart {run : List Char} (h : (name run).Sound Callable row)
    (hhead : ∀ c ∈ (text row).head?, isNameChar c = false) : idle.Sound Callable row := by
  cases row with
  | nil => trivial
  | cons cell row =>
      obtain ⟨-, hrest⟩ := (sound_cons _ _ _).mp h
      refine ⟨by simp [Admits, pending?], ?_⟩
      cases hword : isWordChar cell.char with
      | true =>
          -- The longer word is not known, so it is not called.
          have hname : isNameChar cell.char = false := hhead cell.char rfl
          have hstep : (name run).step cell = name (run ++ [cell.char]) := by simp [step, hword]
          rw [hstep, sound_name_iff] at hrest
          have hcalled : calledAhead (text row) ≠ true := fun hcalled =>
            not_callable_of_mem (by simp) hword hname (hrest.1 hcalled)
          have hbegin : idle.step cell = begin cell := by simp [step, hword]
          rw [hbegin, begin]
          split_ifs
          · exact (sound_name_iff _ _).mpr ⟨fun h => absurd h hcalled, hrest.2⟩
          · exact hrest.2
      | false =>
          cases hblank : isBlank cell.char with
          | false => rwa [step_forgets idle (name run) hword hblank]
          | true =>
              have hspaced : (name run).step cell = spaced run := by simp [step, hword, hblank]
              rw [hspaced, sound_spaced_iff] at hrest
              rw [step_blank_idle rfl hblank]
              exact hrest.2

theorem ends_comma : Ends ',' := ⟨by decide, by decide, by decide⟩

end Word

theorem char_of_comma {cell : Cell} (h : cell.isCode ',' = true) : cell.char = ',' := by
  simpa using (Bool.and_eq_true_iff.mp h).1

theorem sound_listItems {row : List Cell} (h : Word.idle.Sound Callable row) :
    ∀ item ∈ listItems row, Word.idle.Sound Callable item := by
  have hpiece {piece : List Cell} (hwhole : Whole 0 piece)
      (hsound : Word.idle.Sound Callable piece) :
      ∀ item ∈ listItems piece, Word.idle.Sound Callable item := by
    rcases blank_or_item hwhole with
      ⟨-, hnil⟩ | ⟨blanks, item, spaces, rfl, hblanks, -, -, -, -, hitem⟩
    · simp [hnil]
    · rw [List.append_assoc, Word.sound_append, Word.after_of_idle fun cell hcell =>
          Word.step_blank_idle rfl (hblanks cell hcell), Word.sound_append] at hsound
      rw [hitem, List.forall_mem_singleton]
      exact hsound.2.1
  induction row using cut_induction with
  | whole row hwhole => exact hpiece hwhole h
  | cut a comma b ha hbalance hcomma ih =>
      rw [Word.sound_append, Word.sound_cons,
        Word.step_ends _ (char_of_comma hcomma ▸ Word.ends_comma)] at h
      rw [listItems_cut ha hbalance hcomma, List.forall_mem_append]
      exact ⟨hpiece ha h.1, ih h.2.2⟩

/-! ## Delimiters of lists -/

theorem excess_of_inert {row : List Cell} (h : ∀ cell ∈ row, cell.Inert) (pair : Pair) :
    pair.excess row = 0 := by
  have hcell {cell : Cell} (hcell : cell ∈ row) :
      cell.isCode pair.left = false ∧ cell.isCode pair.right = false := by
    have hshift := (h cell hcell).1
    have hmem : pair ∈ Pair.all := by cases pair <;> simp [Pair.all]
    have hflat : cell.opens = false ∧ cell.closes = false := by
      rw [Cell.shift] at hshift
      split_ifs at hshift with hopens hcloses <;> simp_all
    exact ⟨by simpa using List.any_eq_false.mp hflat.1 pair hmem,
      by simpa using List.any_eq_false.mp hflat.2 pair hmem⟩
  rw [Pair.excess, List.countP_eq_zero.mpr fun cell h => by simp [(hcell h).1],
    List.countP_eq_zero.mpr fun cell h => by simp [(hcell h).2], sub_self]

theorem excess_comma {cell : Cell} (h : cell.isCode ',' = true) (pair : Pair) :
    pair.excess [cell] = 0 := by
  refine (neutral_of_flat fun other hother => .inl ?_).excess pair
  rw [List.mem_singleton.mp hother, char_of_comma h]
  decide

theorem excess_listItems (pair : Pair) (row : List Cell) :
    pair.excess row = ((listItems row).map pair.excess).sum := by
  have hblank {blanks : List Cell} (hblanks : ∀ cell ∈ blanks, isBlank cell.char = true) :
      pair.excess blanks = 0 :=
    excess_of_inert (fun cell hcell => inert_of_isBlank (hblanks cell hcell)) pair
  have hpiece {piece : List Cell} (hwhole : Whole 0 piece) :
      pair.excess piece = ((listItems piece).map pair.excess).sum := by
    rcases blank_or_item hwhole with
      ⟨hblanks, hnil⟩ | ⟨blanks, item, spaces, rfl, hblanks, hspaces, -, -, -, hitem⟩
    · rw [hnil, hblank hblanks]
      rfl
    · rw [hitem, Pair.excess_append, Pair.excess_append, hblank hblanks, hblank hspaces]
      simp
  induction row using cut_induction with
  | whole row hwhole => exact hpiece hwhole
  | cut a comma b ha hbalance hcomma ih =>
      rw [listItems_cut ha hbalance hcomma, List.map_append, List.sum_append, ← hpiece ha, ← ih,
        ← List.singleton_append, Pair.excess_append, Pair.excess_append, excess_comma hcomma,
        zero_add]

theorem excess_intercalate (pair : Pair) (rows : List (List Cell)) :
    pair.excess (List.intercalate (codeRow ", ".toList) rows) = (rows.map pair.excess).sum := by
  have hcomma : pair.excess (codeRow ", ".toList) = 0 := by cases pair <;> rfl
  induction rows with
  | nil => rfl
  | cons row rows ih =>
      cases rows with
      | nil => simp
      | cons next rows =>
          rw [List.intercalate_cons_cons, Pair.excess_append, Pair.excess_append, ih, hcomma,
            add_zero]
          rfl

theorem excess_paren (pair : Pair) {a : Cell} {c : Char} (ha : a.isCode c = true) :
    pair.excess [a] = pair.excess [⟨c, .code⟩] := by
  obtain ⟨hchar, hcode⟩ : a.char = c ∧ a.isLiteral = false := by simpa [Cell.isCode] using ha
  have hplain : Cell.isLiteral ⟨c, .code⟩ = false := rfl
  have hsame (d : Char) : a.isCode d = Cell.isCode d ⟨c, .code⟩ := by
    simp [Cell.isCode, hchar, hcode, hplain]
  simp [Pair.excess, List.countP_cons, hsame]

theorem excess_parens (pair : Pair) {a b : Cell} (ha : a.isCode '(' = true)
    (hb : b.isCode ')' = true) : pair.excess [a] + pair.excess [b] = 0 := by
  rw [excess_paren pair ha, excess_paren pair hb]
  cases pair <;> rfl

end Query

namespace SortCall

open Scanner

/-! ## Keys -/

def Directed (key : List Char) : Prop :=
  ∀ direction field, Spells key direction field → Callable direction

theorem directed_iff {key : List Char} :
    Directed key ↔ ∀ new ∈ normalize? key, Callable (new.takeWhile (· != '(')) := by
  have hname {direction field : List Char} (h : Spells key direction field) :
      (directed direction field).takeWhile (· != '(') = direction := by
    have hletters : ∀ c ∈ direction, (c != '(') = true := by
      intro c hc
      rw [bne_iff_ne]
      rintro rfl
      exact (h.direction_bland _ hc).1 (by decide)
    rw [directed, List.append_assoc, List.append_assoc, List.takeWhile_append_of_pos hletters]
    simp
  constructor
  · intro h new hnew
    obtain ⟨direction, field, hspells, rfl⟩ := normalize?_eq_some.mp hnew
    rw [hname hspells]
    exact h direction field hspells
  · intro h direction field hspells
    rw [← hname hspells]
    exact h _ (normalize?_eq_some.mpr ⟨direction, field, hspells, rfl⟩)

instance : DecidablePred Directed := fun _ => decidable_of_iff _ directed_iff.symm

section Key

variable {s : Scanner} {item row : List Cell}

theorem Respelled.excess (h : Respelled s item row) (hmode : (s.finish (text item)).mode = .code)
    (pair : Pair) : pair.excess row = pair.excess item := by
  cases h with
  | kept => rfl
  | @called direction front field back close hspells hitem hfront hinert hclose hcode =>
      have hdirection : pair.excess (codeRow direction) = 0 :=
        (neutral_codeRow fun c hc => (hspells.direction_bland c hc).1).excess pair
      have hparens : pair.excess [⟨'(', .code⟩] + pair.excess [close] = 0 :=
        excess_parens pair rfl (by simp [Cell.isCode, hclose, hcode hmode])
      rw [callRow, ← List.singleton_append, hitem]
      simp only [Pair.excess_append, hdirection,
        excess_of_inert fun cell hcell => hinert cell (List.mem_append_left _ hcell),
        excess_of_inert fun cell hcell => hinert cell (List.mem_append_right _ hcell)]
      omega

theorem Respelled.calls (h : Respelled s item row) (hdirected : Directed (text item))
    (hsound : Word.idle.Sound Callable item) : Word.idle.Sound Callable row := by
  cases h with
  | kept => exact hsound
  | @called direction front field back close hspells hitem hfront hinert hclose hcode =>
      have hcallable := hdirected direction _ hspells
      have hname : Word.idle.after (codeRow direction) = .name direction := by
        rcases hspells.direction_iff.1.mpr (hspells.direction_iff.2.mp hcallable) with rfl | rfl <;>
          decide
      have hidle : Word.idle.after front = .idle := Word.after_of_idle fun cell hcell => by
        rcases hfront cell hcell with hminus | hblank
        · exact Word.step_ends _ (by rw [hminus]; exact ⟨by decide, by decide, by decide⟩)
        · exact Word.step_blank_idle rfl hblank
      rw [hitem, Word.sound_append, hidle, Word.sound_append] at hsound
      have hletters : ∀ cell ∈ codeRow direction, cell.char ≠ '(' := by
        intro cell hcell hparen
        obtain ⟨c, hc, rfl⟩ := List.mem_map.mp hcell
        obtain rfl : c = '(' := hparen
        exact (hspells.direction_bland _ hc).1 (by decide)
      have hopen : (Word.name direction).step ⟨'(', .code⟩ = .idle :=
        Word.step_ends _ ⟨by decide, by decide, by decide⟩
      rw [callRow, List.append_assoc, Word.sound_append, hname, List.cons_append, Word.sound_cons,
        hopen, Word.sound_append]
      refine ⟨Word.sound_of_no_paren _ hletters, ?_, hsound.2.1, Word.sound_of_no_paren _ ?_⟩
      · rintro - run hrun
        obtain rfl : direction = run := by simpa [Word.pending?] using hrun
        exact hcallable
      · simp [hclose]

end Key

/-! ## Lists of keys -/

namespace Rewriting

variable {last : Option Char} {items rows : List (List Cell)} {s t : Scanner}

theorem excess (h : Rewriting last items rows s t) (hmode : s.mode = .code) (pair : Pair) :
    (rows.map pair.excess).sum = (items.map pair.excess).sum := by
  induction h with
  | last h => simp [h.cells.excess hmode pair]
  | cons h hcode hrest ih => simp [h.cells.excess hcode pair, ih hmode]

theorem calls (h : Rewriting last items rows s t) (hdirected : ∀ item ∈ items, Directed (text item))
    (hsound : ∀ item ∈ items, Word.idle.Sound Callable item) :
    Word.idle.Sound Callable (List.intercalate (codeRow ", ".toList) rows) := by
  induction h with
  | last h =>
      rw [List.intercalate_singleton]
      exact h.cells.calls (hdirected _ (by simp)) (hsound _ (by simp))
  | @cons last item row items rows s t h hcode hrest ih =>
      obtain ⟨next, rows, rfl⟩ := List.exists_cons_of_ne_nil hrest.ne_nil.2
      obtain ⟨hdirectedItem, hdirected⟩ := List.forall_mem_cons.mp hdirected
      obtain ⟨hsoundItem, hsound⟩ := List.forall_mem_cons.mp hsound
      have hcomma (word : Word) : word.after (codeRow ", ".toList) = .idle := by
        change (word.step ⟨',', .code⟩).step ⟨' ', .code⟩ = .idle
        rw [Word.step_ends word (show Word.Ends ',' from Word.ends_comma)]
        decide
      rw [List.intercalate_cons_cons, List.append_assoc, Word.sound_append, Word.sound_append, hcomma]
      exact ⟨h.cells.calls hdirectedItem hsoundItem, Word.sound_of_no_paren _ (by simp [codeRow]),
        ih hdirected hsound⟩

theorem shut (h : Rewriting last items rows s t) (hmode : s.mode = .code) :
    Shut (List.intercalate (codeRow ", ".toList) rows) := by
  induction h with
  | @last last item row h =>
      rw [List.intercalate_singleton]
      exact h.paints.code_iff_shut.mp (h.mode.trans hmode)
  | @cons last item row items rows s t h hcode hrest ih =>
      obtain ⟨next, rows, rfl⟩ := List.exists_cons_of_ne_nil hrest.ne_nil.2
      rw [List.intercalate_cons_cons, shut_append hrest.bare.ne_nil]
      exact ih hmode

end Rewriting

/-! ## Stages -/

/-- A sort stage that can be mended without harm: its list does not start with a comma, the comma
at its end keeps no separator from a backslash, and no keyword has a long s. -/
structure Harmless (stage : Stage) : Prop where
  comma : (trimStart (stage.text.drop 4)).head? ≠ some ','
  exposed : ¬ Exposed stage
  directed : ∀ key ∈ keys stage, Directed key

instance : DecidablePred Harmless := fun stage =>
  decidable_of_iff ((trimStart (stage.text.drop 4)).head? ≠ some ',' ∧ ¬ Exposed stage ∧
      ∀ key ∈ keys stage, Directed key)
    ⟨fun h => ⟨h.1, h.2.1, h.2.2⟩, fun h => ⟨h.comma, h.exposed, h.directed⟩⟩

theorem startsWithVerb_stageOf (rows : List (List Cell)) (gap : List Cell) :
    StartsWithVerb (stageOf rows gap).body :=
  ⟨"sort".toList, by rw [← Stage.text, text_stageOf]; rfl, by decide⟩

theorem RewrittenStage.code {stage : Stage} {rows : List (List Cell)} {s t : Scanner}
    (h : RewrittenStage stage rows s t) (hshut : Shut stage.body) : s.mode = .code := by
  have hne : stage.body.drop 4 ≠ [] := by
    intro hnil
    have hitems := h.keys.ne_nil.1
    rw [hnil] at hitems
    exact hitems rfl
  rw [h.body, shut_append hne] at hshut
  rw [h.mode]
  exact h.paints.code_iff_shut.mpr hshut

theorem Mended.orderly {stage new : Stage} (h : Mended stage new)
    (hdirected : Mendable stage → ∀ key ∈ keys stage, Directed key) (htrimmed : stage.Trimmed)
    (horderly : Orderly stage.body) :
    Orderly new.body ∧ ∀ pair : Pair, pair.excess new.body = pair.excess stage.body := by
  cases h with
  | kept h => exact ⟨horderly, fun _ => rfl⟩
  | @changed rows s t h hmends hlisted hrows =>
      have hmode := hrows.code horderly.shut
      have hhead : ∀ c ∈ (text (stage.body.drop 4)).head?, isNameChar c = false := by
        have hverb := (htrimmed.text_of_verb? (by simpa [Stage.hasVerb] using h.1)).1
        rw [Stage.text, hrows.body, text_append, text_codeRow,
          List.takeWhile_append_of_pos (by simp; decide), List.append_right_eq_self] at hverb
        intro c hc
        obtain ⟨rest, hrest⟩ := List.head?_eq_some_iff.mp hc
        rw [hrest] at hverb
        by_contra hname
        simp [hname] at hverb
      have hlist : Word.idle.Sound Callable (stage.body.drop 4) := by
        have hsound := horderly.calls
        rw [hrows.body, Word.sound_append] at hsound
        have hname : Word.idle.after (codeRow "sort".toList) = .name "sort".toList := by
          decide
        rw [hname] at hsound
        exact hsound.2.restart hhead
      have hspaced : Word.idle.after (codeRow "sort ".toList) = .spaced "sort".toList := by
        decide
      refine ⟨⟨?_, startsWithVerb_stageOf rows stage.gap, ?_⟩, fun pair => ?_⟩
      · rw [stageOf, shut_append hrows.keys.bare.ne_nil]
        exact hrows.keys.shut hmode
      · rw [stageOf, Word.sound_append, hspaced, Word.sound_spaced_iff]
        refine ⟨Word.sound_of_no_paren _ (by simp [codeRow]), fun _ => by decide +kernel,
          hrows.keys.calls (fun item hitem => ?_) (sound_listItems hlist)⟩
        exact hdirected h _ (List.mem_map_of_mem hitem)
      · have hsort : pair.excess (codeRow "sort".toList) = 0 ∧
            pair.excess (codeRow "sort ".toList) = 0 := by
          cases pair <;> exact ⟨rfl, rfl⟩
        rw [hrows.body, stageOf, Pair.excess_append, Pair.excess_append, hsort.1, hsort.2,
          excess_intercalate, hrows.keys.excess hmode, excess_listItems]

theorem wellFormed_after {query : List Char} (h : WellFormed query)
    (hharmless : ∀ stage ∈ (layout query).stages, Mendable stage → Harmless stage) :
    WellFormed (patch query).after := by
  obtain ⟨news, hmended, hlayout⟩ :=
    exists_layout (fun stage hstage hmendable => (hharmless stage hstage hmendable).comma)
      fun stage hstage hmendable => (hharmless stage hstage hmendable).exposed
  have htrimmed : ∀ stage ∈ (layout query).stages, stage.Trimmed :=
    (Layout.apart (cells query)).trimmed
  rw [wellFormed_iff_orderly] at h ⊢
  rw [hlayout]
  dsimp only
  obtain ⟨hpairs, horderly⟩ := h
  generalize (layout query).stages = stages at *
  have hnews : (∀ new ∈ news, Orderly new.body) ∧ ∀ pair : Pair,
      (news.map fun stage => pair.excess stage.body) =
        stages.map fun stage => pair.excess stage.body := by
    clear hpairs hlayout
    induction hmended with
    | nil => simp
    | @cons stage new stages news hstage _ ih =>
        obtain ⟨hharmlessStage, hharmless⟩ := List.forall_mem_cons.mp hharmless
        obtain ⟨htrimmedStage, htrimmed⟩ := List.forall_mem_cons.mp htrimmed
        obtain ⟨horderlyStage, horderly⟩ := List.forall_mem_cons.mp horderly
        obtain ⟨hnews, hexcess⟩ := ih hharmless htrimmed horderly
        obtain ⟨hnew, hsame⟩ :=
          hstage.orderly (fun hmendable => (hharmlessStage hmendable).directed) htrimmedStage
            horderlyStage
        refine ⟨List.forall_mem_cons.mpr ⟨hnew, hnews⟩, fun pair => ?_⟩
        rw [List.map_cons, List.map_cons, hsame, hexcess]
  exact ⟨fun pair => by rw [hnews.2, hpairs], hnews.1⟩

end SortCall

end OpalRepair
