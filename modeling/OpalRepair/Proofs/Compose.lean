import Mathlib
import OpalRepair.Proofs.Bracket
import OpalRepair.Proofs.Verdict

/-!
# Accepted queries side by side

Two accepted queries with a pipe between them make a query that passes every check but possibly the
one on the number of stages.
-/

namespace OpalRepair

open Query Text Vocabulary

/-! ## The ends of an accepted query -/

namespace Query

theorem fresh_of_startsWithVerb {query : List Char}
    (h : ∀ body ∈ (layout query).stages.map Stage.body, StartsWithVerb body) :
    Scanner.Fresh query := by
  by_contra hfresh
  obtain ⟨c, rest, htrim, hc⟩ : ∃ c rest, trimStart query = c :: rest ∧ (c = '/' ∨ c = '\\') := by
    cases htrim : trimStart query with
    | nil => simp [Scanner.Fresh, htrim] at hfresh
    | cons c rest =>
        refine ⟨c, rest, rfl, ?_⟩
        simp only [Scanner.Fresh, htrim, List.head?_cons, ne_eq, Option.some.injEq] at hfresh
        tauto
  obtain ⟨blanks, hblanks, hquery⟩ := exists_blanks query
  rw [htrim] at hquery
  have hchar : isBlank c = false ∧ isNameChar c = false ∧ c ≠ '|' := by
    rcases hc with rfl | rfl <;> decide
  -- The first cell that is not blank starts the first stage.
  obtain ⟨front, back, hcells, hfront, hback⟩ :=
    row_of_text (show text (cells query) = blanks ++ c :: rest by rw [text_cells, hquery])
  obtain ⟨cell, tail, rfl, hcell, -⟩ := row_of_text_cons hback
  have hgap : cell.isGap = false := by
    have hseparator : cell.isSeparator = false := by
      by_contra hseparator
      have hmem : cell ∈ Scanner.paint {} query := by rw [← cells, hcells]; simp
      have hpipe := Scanner.char_of_isSeparator hmem (by simpa using hseparator)
      exact hchar.2.2 (hcell.symm.trans hpipe)
    simp [Cell.isGap, hseparator, hcell, hchar.1]
  obtain ⟨body, gap, stages, hfirst⟩ := Layout.exists_cons hgap (Layout.ofCells tail)
  have hlead : ∀ blank ∈ front, blank.isGap = true := by
    intro blank hblank
    have : blank.char ∈ text front := List.mem_map_of_mem hblank
    simp [Cell.isGap, hblanks blank.char (hfront ▸ this)]
  have hstages : (layout query).stages = ⟨cell :: body, gap⟩ :: stages := by
    rw [layout, hcells, Layout.ofCells, List.foldr_append, List.foldr_cons, ← Layout.ofCells,
      hfirst, Layout.foldr_cons_blank hlead]
  obtain ⟨name, hname, -⟩ := h (cell :: body) (by simp [hstages])
  simp [leadingName?, trimStart, hcell, hchar.1, hchar.2.1] at hname

end Query

/-! ## Joining -/

theorem Query.nestingDepth_join {a : List Cell} (ha : depthAfter 0 a = 0) (b : List Cell) :
    nestingDepth (a ++ gapRow ++ b) = max (nestingDepth a) (nestingDepth b) := by
  have hgap : depthAfter 0 gapRow = 0 ∧ nestingFrom 0 gapRow = 0 := by decide
  rw [nestingDepth, nestingFrom_append, nestingFrom_append, depthAfter_append, ha, hgap.1, hgap.2]
  simp [nestingDepth]

theorem Query.Word.sound_join {known : List Char → Prop} (a b : List Cell) :
    idle.Sound known (a ++ gapRow ++ b) ↔ idle.Sound known a ∧ idle.Sound known b := by
  have hgap (word : Word) : word.Sound known gapRow ∧ word.after gapRow = .idle := by
    refine ⟨sound_of_no_paren _ (by decide), ?_⟩
    rw [show gapRow = [⟨' ', .code⟩] ++ [⟨'|', .separator⟩] ++ [⟨' ', .code⟩] from rfl, after_append,
      after_ends _ _ ⟨by decide, by decide, by decide⟩]
    rfl
  rw [sound_append, sound_append, after_append, (hgap _).2, and_iff_left (hgap _).1]

theorem accepted_join_iff {settings : Settings} {a b : List Char} (ha : Accepted settings a)
    (hb : Accepted settings b)
    (hfronts : ∀ front, front <+: cells a → front.countP Cell.closes ≤ front.countP Cell.opens) :
    Accepted settings (a ++ " | ".toList ++ b) ↔
      (layout a).stages.length + (layout b).stages.length ≤ settings.maxStages := by
  obtain ⟨hcells, hfinal⟩ := scan_join ha.mode (fresh_of_startsWithVerb hb.verbs)
  have hbodies : (layout (a ++ " | ".toList ++ b)).stages.map Stage.body =
      (layout a).stages.map Stage.body ++ (layout b).stages.map Stage.body := by
    rw [layout, hcells, map_body_gapRow]
    rfl
  have hdepth : depthAfter 0 (cells a) = 0 := by
    have hafter := depthAfter_of_prefixes 0 (by simpa using hfronts)
    rw [countP_closes_eq ha.paired] at hafter
    omega
  have hlength : (layout a).stages.length + (layout b).stages.length ≤ settings.maxStages ↔
      ((layout (a ++ " | ".toList ++ b)).stages.map Stage.body).length ≤ settings.maxStages := by
    rw [hbodies]
    simp
  rw [hlength]
  refine ⟨Accepted.stages, fun hstages => ?_⟩
  refine ⟨hfinal.trans hb.mode, fun pair => ?_, hstages, ?_, ?_, ?_⟩
  · have hgap : gapRow.countP (Cell.isCode pair.left) = gapRow.countP (Cell.isCode pair.right) := by
      cases pair <;> rfl
    simp only [hcells, List.countP_append, ha.paired pair, hb.paired pair, hgap]
  · rw [hcells, nestingDepth_join hdepth]
    exact max_le ha.nesting hb.nesting
  · rw [hbodies]
    intro body hbody
    rcases List.mem_append.mp hbody with hbody | hbody
    · exact ha.verbs body hbody
    · exact hb.verbs body hbody
  · rw [hcells, Word.sound_join]
    exact ⟨ha.calls, hb.calls⟩

/-- A pipe between accepted queries, the first of which never closes more than it opened, adds up
their stages and changes nothing else: the two together are accepted if there are not too many. -/
theorem checkStructure_join {settings : Settings} {a b : String}
    (ha : checkStructure settings a = .ok ()) (hb : checkStructure settings b = .ok ())
    (hfronts : ∀ front, front <+: cells a.toList →
      front.countP Cell.closes ≤ front.countP Cell.opens) :
    checkStructure settings (a ++ " | " ++ b) = .ok () ↔
      (split a.toList).length + (split b.toList).length ≤ settings.maxStages := by
  rw [checkStructure_iff_accepted] at ha hb ⊢
  simpa [split] using accepted_join_iff ha hb hfronts

/-- The first query ends with a backslash, which takes the blank behind it. -/
theorem checkStructure_join_backslash :
    checkStructure { maxStages := 3 }
      ("filter abs(x) = \\" ++ " | " ++ "sort desc(a) | limit 1") = .ok () := by
  have hfronts : ∀ front ∈ (cells "filter abs(x) = \\".toList).inits,
      front.countP Cell.closes ≤ front.countP Cell.opens := by decide
  refine (checkStructure_join (by decide) (by decide) ?_).mpr (by decide)
  exact fun front hfront => hfronts front ((List.mem_inits _ _).mpr hfront)

end OpalRepair
