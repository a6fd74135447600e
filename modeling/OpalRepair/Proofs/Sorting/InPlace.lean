import Mathlib
import OpalRepair.Proofs.Aligning
import OpalRepair.Proofs.Sorting.Written

/-!
# Keys are mended in place

A sort stage is mended key by key and the stages around it are read as before.  Two things can go
wrong.  A comma at the end of a list is left out, which exposes the separator behind it to a
backslash, and a field path that closes more than it opens is cut apart inside its call.

Main statement: `sortCall_mends_in_place`.
-/

namespace OpalRepair

open Query Text Scanner

/-! ## Gaps behind mended stages -/

namespace Query

def Continues (gap behind new : List Cell) : Prop :=
  gap.any Cell.isSeparator = true ∧ (atCode (some '|')).Paints new ∨ behind = [] ∧ new = []

namespace Scanner

variable {s t : Scanner} {gap behind new : List Cell}

theorem paint_blanks_of_mode (hmode : t.mode = s.mode) (hflags : ∀ more, s.mode ≠ .flags more)
    {blanks : List Char} (hblanks : ∀ c ∈ blanks, isBlank c = true) :
    t.paint blanks = s.paint blanks := by
  induction blanks generalizing s t with
  | nil => rfl
  | cons c blanks ih =>
      obtain ⟨hc, hblanks⟩ := List.forall_mem_cons.mp hblanks
      rw [paint, paint]
      cases hs : s.mode with
      | flags more => exact absurd hs (hflags more)
      | code =>
          rw [step_blank hs hc, step_blank (hmode.trans hs) hc]
          congr 1
          exact ih rfl (by simp [atCode]) hblanks
      | inside literal =>
          have hdelimiter : c ≠ literal.delimiter := fun h =>
            bland_of_isBlank hc (h ▸ delimiter_mem_special literal)
          obtain ⟨hrole, hnext⟩ := step_inside hs hdelimiter blanks
          obtain ⟨hrole', hnext'⟩ := step_inside (hmode.trans hs) hdelimiter blanks
          rw [hrole, hrole']
          congr 1
          exact ih (hnext'.trans hnext.symm) (by simp [hnext]) hblanks

theorem Paints.head_of_escaped (h : s.Paints (gap ++ behind)) (hs : s.escaped = true) :
    gap.head?.any Cell.isSeparator = false := by
  cases gap with
  | nil => rfl
  | cons cell gap =>
      rw [List.head?_cons, Option.any_some, ← Bool.not_eq_true]
      intro hseparator
      have hrole : cell.role = .separator := by simpa [Cell.isSeparator] using hseparator
      rw [escaped_of_separator ((paints_cons.mp h).1.trans hrole)] at hs
      simp at hs

theorem Paints.head_of_gap {row : List Cell} (h : s.Paints (row ++ (gap ++ behind)))
    (hgap : ∀ cell ∈ gap, cell.isGap = true) (hnew : gap = [] → new = []) :
    ∀ cell ∈ (gap ++ new).head?, isNameChar cell.char = false := by
  intro cell hcell
  cases gap with
  | nil => simp [hnew rfl] at hcell
  | cons first gap =>
      obtain rfl : first = cell := by simpa using hcell
      rcases h.char_of_gap (by simp) (hgap first (by simp)) with hpipe | hblank
      · rw [hpipe]
        decide
      · exact isNameChar_of_isBlank hblank

/-- A gap is read alike from all states of code, unless a backslash is in front of its first
separator. -/
theorem paint_gap_of_code (hmode : t.mode = .code) (hgap : ∀ cell ∈ gap, cell.isGap = true)
    (hne : gap ≠ []) (hescaped : t.escaped = true → gap.head?.any Cell.isSeparator = false)
    (rest : List Char) : t.paint (text gap ++ rest) = (atCode t.last).paint (text gap ++ rest) := by
  cases ht : t.escaped with
  | false => exact (alike_atCode hmode ht).paint _
  | true =>
      obtain ⟨cell, gap, rfl⟩ := List.exists_cons_of_ne_nil hne
      have hseparator : cell.isSeparator = false := by simpa using hescaped ht
      have hblank : isBlank cell.char = true := by
        simpa [Cell.isGap, hseparator] using hgap cell (by simp)
      rw [text_cons, List.cons_append, paint, paint, step_blank hmode hblank, step_blank rfl hblank]
      rfl

/-- A gap is read as before from another state in the same mode, unless a backslash is in front of
its first separator. -/
theorem Paints.gap_of_mode (h : s.Paints (gap ++ behind)) (hgap : ∀ cell ∈ gap, cell.isGap = true)
    (hflags : ∀ more, s.mode ≠ .flags more) (hmode : t.mode = s.mode)
    (hescaped : t.escaped = true → gap.head?.any Cell.isSeparator = false)
    (hnew : Continues gap behind new) : t.Paints (gap ++ new) := by
  cases hapart : gap.any Cell.isSeparator with
  | true =>
      have hcode : s.mode = .code :=
        FlagCount.mode_of_apart h (fun more hmore => absurd hmore (hflags more)) hgap hapart
      have hne : gap ≠ [] := by rintro rfl; simp at hapart
      rw [Paints, text_append, paint_gap_of_code (hmode.trans hcode) hgap hne hescaped,
        (h.gap_apart hcode hgap hapart).2]
      rcases hnew with ⟨-, hnew⟩ | ⟨-, rfl⟩
      · rw [hnew]
      · rfl
  | false =>
      obtain ⟨rfl, rfl⟩ := hnew.resolve_left (by simp [hapart])
      have hblanks : ∀ cell ∈ gap, isBlank cell.char = true := by
        intro cell hcell
        have hseparator : cell.isSeparator = false := by
          simpa using List.any_eq_false.mp hapart cell hcell
        simpa [Cell.isGap, hseparator] using hgap cell hcell
      rw [List.append_nil] at h ⊢
      rw [Paints, paint_blanks_of_mode hmode hflags (forall_mem_text hblanks), h]

end Scanner

theorem Continues.paints {last : Option Char} {stage : Stage} {behind new : List Cell}
    (hnew : Continues stage.gap behind new) (htrimmed : stage.Trimmed)
    (h : (atCode last).Paints (stage.cells ++ behind)) :
    (atCode last).Paints (stage.cells ++ new) := by
  rcases hnew with ⟨hapart, hnew⟩ | ⟨rfl, rfl⟩
  · rw [Paints, text_append, h.kept_firm (Alike.refl _) (firm_cells htrimmed h hapart),
      (reach_of_apart htrimmed h hapart).2.1, hnew]
  · exact h

end Query

/-! ## Stages -/

namespace SortCall

/-- A sort stage with a key that spells out a direction. -/
def Mendable (stage : Stage) : Prop :=
  stage.hasVerb "sort" = true ∧ ∃ key ∈ keys stage, ∃ direction field, Spells key direction field

/-- A stage whose last key ends with a backslash that only a comma keeps from a separator. -/
def Exposed (stage : Stage) : Prop :=
  (∃ key ∈ (keys stage).getLast?, key.getLast? = some '\\') ∧ stage.text.getLast? = some ',' ∧
    stage.gap.head?.any Cell.isSeparator = true

instance : DecidablePred Exposed := fun _ => inferInstanceAs (Decidable (_ ∧ _))

/-- A stage whose keys that spell out a direction are not cut inside a pair. -/
def Enclosable (stage : Stage) : Prop :=
  ∀ item ∈ listItems (stage.body.drop 4), ∀ direction field,
    Spells (text item) direction field → splitCommas 1 item = [item]

theorem isSome_normalize? (key : List Char) :
    (normalize? key).isSome = true ↔ ∃ direction field, Spells key direction field := by
  rw [Option.isSome_iff_exists]
  constructor
  · rintro ⟨new, hnew⟩
    obtain ⟨direction, field, hspells, -⟩ := normalize?_eq_some.mp hnew
    exact ⟨direction, field, hspells⟩
  · rintro ⟨direction, field, hspells⟩
    exact ⟨_, normalize?_eq_some.mpr ⟨direction, field, hspells, rfl⟩⟩

theorem mendStage?_of_mendable {stage : Stage} (h : Mendable stage) :
    mendStage? stage = some ("sort ".toList ++
      List.intercalate ", ".toList ((keys stage).map fun key => (normalize? key).getD key)) := by
  have hany : (keys stage).any (fun key => (normalize? key).isSome) = true := by
    obtain ⟨key, hkey, hspells⟩ := h.2
    exact List.any_eq_true.mpr ⟨key, hkey, (isSome_normalize? key).mpr hspells⟩
  rw [mendStage?, if_neg (by simp [h.1])]
  exact if_pos hany

theorem mendStage?_of_not_mendable {stage : Stage} (h : ¬ Mendable stage) :
    mendStage? stage = none := by
  cases hmend : mendStage? stage with
  | none => rfl
  | some new =>
      obtain ⟨hverb, ⟨key, hkey, hsome⟩, -⟩ := mendStage?_eq_some hmend
      exact absurd ⟨hverb, key, hkey, (isSome_normalize? key).mp hsome⟩ h

theorem mendable_iff (stage : Stage) : Mendable stage ↔ (mendStage? stage).isSome = true := by
  constructor
  · intro h
    rw [mendStage?_of_mendable h]
    rfl
  · intro h
    by_contra hnot
    simp [mendStage?_of_not_mendable hnot] at h

instance : DecidablePred Mendable := fun stage => decidable_of_iff _ (mendable_iff stage).symm

theorem Mends.eq_getD {key new : List Char} (h : Mends key new) :
    new = (normalize? key).getD key := by
  cases h with
  | kept h =>
      have hnone : normalize? key = none := by
        rw [← Option.not_isSome_iff_eq_none, isSome_normalize?]
        rintro ⟨direction, field, hspells⟩
        exact h direction field hspells
      rw [hnone]
      rfl
  | directed h =>
      rw [normalize?_eq_some.mpr ⟨_, _, h, rfl⟩]
      rfl

theorem Mends.not_spells {key new : List Char} (h : Mends key new) {direction field : List Char} :
    ¬ Spells new direction field := by
  cases h with
  | kept h => exact h direction field
  | @directed written path h =>
      intro hspells
      obtain ⟨c, rest, hhead, -, hminus⟩ := h.direction_head
      generalize hcall : SortCall.directed written path = call at hspells
      cases hspells with
      | minus =>
          rw [SortCall.directed, hhead] at hcall
          exact hminus (List.cons.inj hcall).1
      | @keyword field blanks keyword hfield hne hblanks hkeyword =>
          -- A call ends with a parenthesis, and no keyword does.
          have hne : keyword ≠ [] := by
            rintro rfl
            simp at hkeyword
          have hlast := congrArg List.getLast? hcall
          rw [SortCall.directed, List.getLast?_concat, ← List.append_assoc,
            List.getLast?_append_of_ne_nil _ hne] at hlast
          exact (bland_of_keyword hkeyword ')' (List.mem_of_getLast? hlast.symm)).1 (by decide)

theorem mendStage?_of_mends {stage : Stage} {old written : List (List Char)}
    (h : List.Forall₂ Mends old written) (hkeys : keys stage = written) :
    mendStage? stage = none := by
  refine mendStage?_of_not_mendable fun ⟨_, key, hkey, direction, field, hspells⟩ => ?_
  rw [hkeys] at hkey
  clear hkeys
  induction h with
  | nil => simp at hkey
  | cons hmends _ ih =>
      rcases List.mem_cons.mp hkey with rfl | hkey
      · exact hmends.not_spells hspells
      · exact ih hkey

/-! ## Sort stages -/

theorem text_intercalate (separator : List Cell) (rows : List (List Cell)) :
    text (List.intercalate separator rows) = List.intercalate (text separator) (rows.map text) := by
  induction rows with
  | nil => rfl
  | cons row rows ih =>
      cases rows with
      | nil => simp
      | cons next rows =>
          rw [List.intercalate_cons_cons, text_append, text_append, ih]
          simp only [List.map_cons, List.intercalate_cons_cons]

section SortStage

variable {last : Option Char} {stage : Stage} {behind : List Cell}

theorem exists_list (htrimmed : stage.Trimmed) (hverb : stage.hasVerb "sort" = true)
    (h : (atCode last).Paints (stage.cells ++ behind)) :
    stage.body = codeRow "sort".toList ++ stage.body.drop 4 ∧
      (atCode (some 't')).Paints (stage.body.drop 4 ++ (stage.gap ++ behind)) := by
  have hname := (htrimmed.text_of_verb? (by simpa [Stage.hasVerb] using hverb)).1
  have htext : text stage.body = "sort".toList ++ (text stage.body).dropWhile isNameChar := by
    have hsplit : _ = text stage.body := List.takeWhile_append_dropWhile (p := isNameChar)
    rw [Stage.text] at hname
    rw [hname] at hsplit
    exact hsplit.symm
  obtain ⟨verb, row, hbody, hverbText, -⟩ := row_of_text htext
  have hlength : verb.length = 4 := by simpa [text] using congrArg List.length hverbText
  have hdrop : stage.body.drop 4 = row := by rw [hbody, ← hlength, List.drop_left]
  have hsettles : Settles "sort".toList (codeRow "sort".toList) (some 't') :=
    settles_code (show Solid 's' by decide) (by simp; decide)
  rw [Stage.cells, hbody, List.append_assoc, List.append_assoc, Paints, text_append, hverbText,
    hsettles _ rfl] at h
  obtain ⟨hcells, hrest⟩ := List.append_inj h (by simp [codeRow, hlength])
  rw [hdrop, hbody, hcells]
  exact ⟨rfl, hrest⟩

def stageOf (rows : List (List Cell)) (gap : List Cell) : Stage :=
  ⟨codeRow "sort ".toList ++ List.intercalate (codeRow ", ".toList) rows, gap⟩

theorem text_stageOf (rows : List (List Cell)) (gap : List Cell) :
    (stageOf rows gap).text = "sort ".toList ++ List.intercalate ", ".toList (rows.map text) := by
  rw [Stage.text, stageOf, text_append, text_codeRow, text_intercalate, text_codeRow]

theorem keys_stageOf {rows : List (List Cell)} (h : Listed rows) (gap : List Cell) :
    keys (stageOf rows gap) = rows.map text :=
  congrArg (List.map text) (listItems_intercalate h)

section Rewriting

variable {items rows : List (List Cell)} {s t : Scanner} {last' : Option Char}

theorem Rewriting.trimmed (h : Rewriting last' items rows s t) (htrimmed : stage.Trimmed) :
    (stageOf rows stage.gap).Trimmed := by
  obtain ⟨cell, hcell, hdark⟩ := h.bare.2
  refine ⟨⟨⟨'s', .code⟩, rfl, by decide⟩, ⟨cell, ?_, ?_⟩, ?_, htrimmed.gap⟩
  · rwa [stageOf, List.getLast?_append_of_ne_nil _ h.bare.ne_nil]
  · rw [Cell.isGap, h.body cell (List.mem_of_getLast? hcell), hdark]
    rfl
  · intro cell hcell
    rcases List.mem_append.mp hcell with hcell | hcell
    · exact isSeparator_codeRow cell hcell
    · exact h.body cell hcell

theorem Rewriting.paints_stageOf (h : Rewriting (some 't') items rows s t) {gap new : List Cell}
    (hcut : ∀ cell ∈ (gap ++ new).head?, isNameChar cell.char = false)
    (hgap : t.Paints (gap ++ new)) : (atCode last).Paints ((stageOf rows gap).cells ++ new) := by
  have hsettles : Settles "sort ".toList (codeRow "sort ".toList) (some 't') :=
    settles_code (show Solid 's' by decide) (by simp; decide)
  rw [Stage.cells, stageOf, List.append_assoc, List.append_assoc]
  exact hsettles.paints rfl (h.paints hcut hgap)

end Rewriting

/-- The rows written for the keys of a sort stage.  The scanner ends up in `s` behind the old list
and in `t` behind the new one. -/
structure RewrittenStage (stage : Stage) (rows : List (List Cell)) (s t : Scanner) : Prop where
  body : stage.body = codeRow "sort".toList ++ stage.body.drop 4
  paints : (atCode (some 't')).Paints (stage.body.drop 4)
  keys : Rewriting (some 't') (listItems (stage.body.drop 4)) rows s t
  mode : s.mode = ((atCode (some 't')).finish (text (stage.body.drop 4))).mode

theorem exists_stageOf (htrimmed : stage.Trimmed) (hmendable : Mendable stage)
    (hpaints : (atCode last).Paints (stage.cells ++ behind))
    (hapart : stage.gap.any Cell.isSeparator = true ∨ behind = [])
    (hcomma : (trimStart (stage.text.drop 4)).head? ≠ some ',') (hexposed : ¬ Exposed stage) :
    ∃ rows s t, RewrittenStage stage rows s t ∧ (stageOf rows stage.gap).Trimmed ∧
      ∀ new, Continues stage.gap behind new →
        (atCode last).Paints ((stageOf rows stage.gap).cells ++ new) := by
  obtain ⟨hbody, hlist⟩ := exists_list htrimmed hmendable.1 hpaints
  obtain ⟨key, hkey, -⟩ := hmendable.2
  set row := stage.body.drop 4 with hrow
  have hitems : listItems row ≠ [] := by simpa [keys] using List.ne_nil_of_mem hkey
  have hne : row ≠ [] := by
    intro hnil
    exact hitems (by rw [hnil]; rfl)
  have htext : stage.text = "sort".toList ++ text row := by
    rw [Stage.text, hbody, text_append, text_codeRow]
  have hdark : ∃ cell ∈ row.getLast?, isBlank cell.char = false := by
    obtain ⟨cell, hcell, hgap⟩ := htrimmed.last
    rw [hbody, List.getLast?_append_of_ne_nil _ hne] at hcell
    exact ⟨cell, hcell, (Bool.or_eq_false_iff.mp hgap).2⟩
  have hcut {new : List Cell} (hnew : stage.gap.any Cell.isSeparator = true ∨ new = []) :
      ∀ cell ∈ (stage.gap ++ new).head?, isNameChar cell.char = false :=
    hlist.head_of_gap htrimmed.gap fun hnil => hnew.resolve_left (by simp [hnil])
  obtain ⟨hread, hbehind⟩ := (paints_cut (hcut hapart)).mp hlist
  obtain ⟨rows, s, t, hrewriting, hend⟩ := exists_rewriting hread
    (fun cell hcell => htrimmed.body cell (by rw [hbody]; simp [hcell]))
    (.inr (by simpa [htext] using hcomma)) hdark hitems
  have hmode : s.mode = ((atCode (some 't')).finish (text row)).mode := by
    rcases hend with hend | ⟨hs, -, hcode⟩
    · rw [hend]
    · rw [hs, hcode]
  refine ⟨rows, s, t, ⟨hbody, hread, hrewriting, hmode⟩, hrewriting.trimmed htrimmed,
    fun new hnew => ?_⟩
  have hescaped (ht : t.escaped = true) : stage.gap.head?.any Cell.isSeparator = false := by
    obtain ⟨hs, key, hkey, hback⟩ := hrewriting.escaped ht
    rcases hend with rfl | ⟨-, hlastComma, -⟩
    · exact hbehind.head_of_escaped hs
    · -- The comma that followed the last key is gone.
      have hstageComma : stage.text.getLast? = some ',' := by
        rw [htext, List.getLast?_append_of_ne_nil _ (by simpa [text] using hne), hlastComma]
      rw [← Bool.not_eq_true]
      exact fun hseparator => hexposed ⟨⟨key, hkey, hback⟩, hstageComma, hseparator⟩
  exact hrewriting.paints_stageOf (hcut (hnew.imp And.left And.right))
    (hbehind.gap_of_mode htrimmed.gap (finish_atCode_ne_flags _ _) (hrewriting.mode.trans hmode)
      hescaped hnew)

end SortStage

/-! ## Queries -/

inductive Mended : Stage → Stage → Prop where
  | kept {stage : Stage} (h : ¬ Mendable stage) : Mended stage stage
  | changed {stage : Stage} {rows : List (List Cell)} {s t : Scanner} (h : Mendable stage)
      (hmends : List.Forall₂ Mends (keys stage) (rows.map text))
      (hlisted : Enclosable stage → Listed rows) (hrows : RewrittenStage stage rows s t) :
      Mended stage (stageOf rows stage.gap)

theorem eq_map_getD {old written : List (List Char)} (h : List.Forall₂ Mends old written) :
    written = old.map fun key => (normalize? key).getD key := by
  induction h with
  | nil => rfl
  | cons hmends _ ih => rw [List.map_cons, ← ih, ← hmends.eq_getD]

theorem Mended.after {stage new : Stage} (h : Mended stage new) :
    Patch.after (stage.pieces mendStage?) = text new.cells := by
  rw [Clause.after_pieces, Stage.cells, text_append]
  cases h with
  | kept h =>
      rw [mendStage?_of_not_mendable h]
      rfl
  | changed h hmends _ _ =>
      rw [mendStage?_of_mendable h, ← eq_map_getD hmends, Option.getD_some,
        ← text_stageOf _ stage.gap]
      rfl

theorem after_of_mended {stages news : List Stage} (h : List.Forall₂ Mended stages news) :
    Patch.after (stages.flatMap (Stage.pieces mendStage?)) = text (news.flatMap Stage.cells) := by
  induction h with
  | nil => rfl
  | cons hmended _ ih =>
      rw [List.flatMap_cons, List.flatMap_cons, Patch.after_append, hmended.after, ih, text_append]

theorem exists_mended {last : Option Char} {stages : List Stage}
    (hpaints : (atCode last).Paints (stages.flatMap Stage.cells)) (hapart : Stage.Apart stages)
    (hcomma : ∀ stage ∈ stages, Mendable stage → (trimStart (stage.text.drop 4)).head? ≠ some ',')
    (hexposed : ∀ stage ∈ stages, Mendable stage → ¬ Exposed stage) :
    ∃ news, List.Forall₂ Mended stages news ∧ Stage.Apart news ∧
      (atCode last).Paints (news.flatMap Stage.cells) := by
  induction stages generalizing last with
  | nil => exact ⟨[], .nil, trivial, hpaints⟩
  | cons stage stages ih =>
      obtain ⟨htrimmed, hgap, hrest⟩ := hapart
      obtain ⟨hcommaStage, hcomma⟩ := List.forall_mem_cons.mp hcomma
      obtain ⟨hexposedStage, hexposed⟩ := List.forall_mem_cons.mp hexposed
      rw [List.flatMap_cons] at hpaints
      -- The stages behind start over at a separator.
      obtain ⟨news, hmended, hnews, hcontinues⟩ : ∃ news, List.Forall₂ Mended stages news ∧
          Stage.Apart news ∧
          Continues stage.gap (stages.flatMap Stage.cells) (news.flatMap Stage.cells) := by
        rcases hgap with rfl | hgap
        · exact ⟨[], .nil, trivial, .inr ⟨rfl, rfl⟩⟩
        · obtain ⟨-, -, hbehind⟩ := reach_of_apart htrimmed hpaints hgap
          obtain ⟨news, hmended, hnews, hread⟩ := ih hbehind hrest hcomma hexposed
          exact ⟨news, hmended, hnews, .inl ⟨hgap, hread⟩⟩
      have hapart : news = [] ∨ stage.gap.any Cell.isSeparator = true := by
        refine hgap.imp (fun hnil => ?_) id
        subst hnil
        exact List.forall₂_nil_left_iff.mp hmended
      by_cases hmendable : Mendable stage
      · obtain ⟨rows, s, t, hrows, hnew, hread⟩ :=
          exists_stageOf htrimmed hmendable hpaints (hcontinues.imp And.left And.left)
            (hcommaStage hmendable) (hexposedStage hmendable)
        exact ⟨stageOf rows stage.gap :: news,
          .cons (.changed hmendable hrows.keys.mends
            (fun henclosable => hrows.keys.listed (listed_listItems _) henclosable) hrows) hmended,
          ⟨hnew, hapart, hnews⟩, hread _ hcontinues⟩
      · exact ⟨stage :: news, .cons (.kept hmendable) hmended, ⟨htrimmed, hapart, hnews⟩,
          hcontinues.paints htrimmed hpaints⟩

theorem mendStage?_of_mended {stages news : List Stage} (h : List.Forall₂ Mended stages news)
    (henclosable : ∀ stage ∈ stages, Mendable stage → Enclosable stage) :
    ∀ new ∈ news, mendStage? new = none := by
  induction h with
  | nil => simp
  | cons hmended _ ih =>
      obtain ⟨hstage, henclosable⟩ := List.forall_mem_cons.mp henclosable
      refine List.forall_mem_cons.mpr ⟨?_, ih henclosable⟩
      cases hmended with
      | kept h => exact mendStage?_of_not_mendable h
      | changed h hmends hlisted =>
          exact mendStage?_of_mends hmends (keys_stageOf (hlisted (hstage h)) _)

theorem exists_layout {query : List Char}
    (hcomma : ∀ stage ∈ (layout query).stages, Mendable stage →
      (trimStart (stage.text.drop 4)).head? ≠ some ',')
    (hexposed : ∀ stage ∈ (layout query).stages, Mendable stage → ¬ Exposed stage) :
    ∃ news, List.Forall₂ Mended (layout query).stages news ∧
      layout (patch query).after = ⟨(layout query).lead, news⟩ := by
  obtain ⟨last, -, hstages, hread⟩ := exists_lead query
  obtain ⟨news, hmended, hnews, hpaints⟩ :=
    exists_mended hstages (Layout.apart (cells query)) hcomma hexposed
  refine ⟨news, hmended, ?_⟩
  have hafter : (patch query).after =
      text (layout query).lead ++ text (news.flatMap Stage.cells) := by
    rw [patch, Patch.ofStages, Patch.after_cons, after_of_mended hmended]
    rfl
  rw [layout, hafter, hread, hpaints]
  exact Layout.ofCells_eq (Layout.gap_lead (cells query)) hnews

theorem fired_of_none (context : Context) {query : String}
    (h : ∀ stage ∈ (layout query.toList).stages, mendStage? stage = none) :
    (sortCall.apply context query).fired = false := by
  have hchanges : (patch query.toList).changes = [] := by
    rw [patch, Patch.ofStages, Patch.changes_keep, Patch.changes_pieces, List.filterMap_eq_nil_iff]
    intro stage hstage
    rw [h stage hstage]
    rfl
  simp [sortCall, Pass.ofPatch, Outcome.ofChanges, Outcome.fired, hchanges]

end SortCall

/-- Sort keys are mended in place: a sort stage with a key that spells out a direction becomes the
list of its keys, each one mended or kept, and all other stages stay, provided that no list of keys
starts with a comma and that no stage that changes is exposed.  A second run has nothing to do, if
the changed keys are not cut inside a pair. -/
theorem sortCall_mends_in_place (context again : Context) (query : String)
    (hcomma : ∀ stage ∈ (layout query.toList).stages, stage.hasVerb "sort" = true →
      (trimStart (stage.text.drop 4)).head? ≠ some ',')
    (hexposed : ∀ stage ∈ (layout query.toList).stages, SortCall.Mendable stage →
      ¬ SortCall.Exposed stage) :
    let outcome := sortCall.apply context query
    List.Forall₂ (fun stage new =>
        ¬ SortCall.Mendable stage ∧ new = stage.text ∨
        SortCall.Mendable stage ∧ ∃ written,
          List.Forall₂ SortCall.Mends (SortCall.keys stage) written ∧
          new = "sort ".toList ++ List.intercalate ", ".toList written)
      (layout query.toList).stages (split outcome.query.toList) ∧
    ((∀ stage ∈ (layout query.toList).stages, SortCall.Mendable stage → SortCall.Enclosable stage) →
      (sortCall.apply again outcome.query).fired = false) := by
  intro outcome
  have hquery : outcome.query.toList = (SortCall.patch query.toList).after :=
    String.toList_ofList ..
  obtain ⟨news, hmended, hlayout⟩ :=
    SortCall.exists_layout (fun stage hstage h => hcomma stage hstage h.1) hexposed
  rw [← hquery] at hlayout
  refine ⟨?_, fun henclosable => ?_⟩
  · rw [split, hlayout, List.forall₂_map_right_iff]
    refine hmended.imp fun stage new h => ?_
    cases h with
    | kept h => exact .inl ⟨h, rfl⟩
    | changed h hmends hlisted => exact .inr ⟨h, _, hmends, SortCall.text_stageOf _ _⟩
  · refine SortCall.fired_of_none again fun new hnew => ?_
    rw [hlayout] at hnew
    exact SortCall.mendStage?_of_mended hmended henclosable new hnew

/-- Commas in a quoted key, in a call and at the end of the list. -/
theorem sortCall_mends_in_place_quoted :
    let query := "limit 9 | sort -a.\"p, q\" , f(b,c),host ASC, d\\ , | limit 1"
    let outcome := sortCall.apply {} query
    (split outcome.query.toList).length = (layout query.toList).stages.length ∧
      (sortCall.apply {} outcome.query).fired = false ∧
      split outcome.query.toList = ["limit 9".toList,
        "sort desc(a.\"p, q\"), f(b,c), asc(host), d\\".toList, "limit 1".toList] := by
  intro query outcome
  have hwhole : ∀ stage ∈ (layout query.toList).stages, ∀ item ∈ listItems (stage.body.drop 4),
      splitCommas 1 item = [item] := by
    decide
  obtain ⟨hstages, hagain⟩ :=
    sortCall_mends_in_place {} {} query (by decide) (by decide)
  exact ⟨hstages.length_eq.symm, hagain fun stage hstage _ item hitem _ _ _ =>
    hwhole stage hstage item hitem, by decide⟩

/-- A comma at the end of a list is not written, and the backslash in front of it takes the
separator away; a field path that closes a parenthesis is cut apart by the next run. -/
theorem sortCall_not_in_place :
    split "sort -a, b\\,| limit 1".toList = ["sort -a, b\\,".toList, "limit 1".toList] ∧
      split (sortCall.apply {} "sort -a, b\\,| limit 1").query.toList =
        ["sort desc(a), b\\| limit 1".toList] ∧
      (sortCall.apply {} "sort desc(a.\"b\\\".\"c),-x,(d\\\")").fired = true ∧
      (sortCall.apply {} "sort -a.\"b\\\".\"c),-x,(d\\\"").query =
        "sort desc(a.\"b\\\".\"c),-x,(d\\\")" := by
  decide

end OpalRepair
