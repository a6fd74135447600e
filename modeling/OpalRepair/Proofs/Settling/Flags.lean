import Mathlib
import OpalRepair.Proofs.Counting.Again
import OpalRepair.Proofs.Settling.Stages

/-!
# Calm flags

When flags are summed, conditions move into another stage and sums stand for counts.  What is calm
stays calm, and stages that neither aggregate nor derive columns are not touched.
-/

namespace OpalRepair

open Query Text Vocabulary

theorem Query.blunt_of_call {front rest : List Char}
    (hstart : ∃ c ∈ front.head?, isNameChar c = true) (hfront : '>' ∉ front) :
    Blunt (front ++ '(' :: rest) := by
  obtain ⟨c, hc, hname⟩ := hstart
  cases front with
  | nil => simp at hc
  | cons d front =>
      obtain rfl := Option.some.inj hc
      refine ⟨next_of_isNameChar hname _, ?_⟩
      rw [List.dropWhile_append]
      split
      · rw [List.dropWhile_cons_of_neg (by decide)]
        simp
      · rename_i hne
        rw [List.head?_append_of_ne_nil _ (by simpa using hne)]
        exact fun hclose => hfront
          ((List.dropWhile_suffix _).subset (List.mem_of_mem_head? hclose))

namespace FlagCount

variable {count : Count} {head inside : List Cell} {paren close : Cell}

theorem Spelled.blunt (h : Spelled count head paren inside close) (rest : List Cell) :
    Blunt (text (head ++ paren :: rest)) := by
  obtain ⟨gap, blanks, spaces, hgap, hblanks, hspaces, htext⟩ := h.name
  obtain ⟨c, name, hlabel, hsolid⟩ := h.solid
  rw [text_append, text_cons, Bytes.char_of_isCode h.paren]
  refine blunt_of_call ⟨c, by rw [htext, hlabel]; rfl, h.label c (by rw [hlabel]; simp)⟩
    fun hmem => ?_
  have hblank : isBlank '>' = false := by decide
  rw [htext] at hmem
  simp only [List.mem_append, List.mem_cons] at hmem
  rcases hmem with (((hmem | hmem) | hmem | hmem) | hmem) | hmem
  · exact absurd (h.label _ hmem) (by decide)
  · simp [hgap _ hmem] at hblank
  · exact absurd hmem (by decide)
  · simp [hblanks _ hmem] at hblank
  · exact absurd hmem (by decide)
  · simp [hspaces _ hmem] at hblank

theorem Spelled.flag_name (h : Spelled count head paren inside close) :
    ∀ c ∈ count.flag, isNameChar c = true := by
  intro c hc
  rcases List.mem_append.mp hc with hc | hc
  · exact h.label c hc
  · exact List.all_eq_true.mp (show "_flag".toList.all isNameChar = true by decide) c hc

theorem Spelled.blunt_sum (h : Spelled count head paren inside close) (rest : List Char) :
    Blunt (count.sum ++ rest) := by
  obtain ⟨c, name, hlabel, hsolid⟩ := h.solid
  have hsum : count.sum ++ rest =
      (count.label ++ ":sum".toList) ++ '(' :: (count.flag ++ ')' :: rest) := by
    simp [Count.sum]
  rw [hsum]
  refine blunt_of_call ⟨c, by rw [hlabel]; rfl, h.label c (by rw [hlabel]; simp)⟩ fun hmem => ?_
  rcases List.mem_append.mp hmem with hmem | hmem
  · exact absurd (h.label _ hmem) (by decide)
  · exact absurd hmem (by decide)

theorem carriedRow_cases (made : Bool) (parts : List Section) :
    (if made then carriedRow parts else []) = [] ∨ ∃ part ∈ parts,
      (if made then carriedRow parts else []) = codeRow ", ".toList ++ part.derivationsRow := by
  cases made with
  | false => exact .inl rfl
  | true =>
      cases parts with
      | nil => exact .inl rfl
      | cons part parts =>
          by_cases hnil : part.segments.isEmpty = true
          · simp [carriedRow, hnil]
          · exact .inr ⟨part, List.mem_cons_self, by simp [carriedRow, hnil]⟩

section Calm

variable {marks : Option Char → List Cell → Bool} (hlocal : Local marks)

include hlocal

theorem calm_label {name : List Char} (hname : ∀ c ∈ name, isNameChar c = true) {behind : List Cell}
    (hbehind : (text behind).head? = some ':' ∨ (text behind).head? = some ')')
    (previous : Option Char) : Calm marks previous (codeRow name) behind := by
  obtain ⟨c, rest, htext, hpath, hblank, hparen⟩ : ∃ c rest, text behind = c :: rest ∧
      QuoteKey.isPathChar c = false ∧ isBlank c = false ∧ c ≠ '(' := by
    cases htext : text behind with
    | nil => simp [htext] at hbehind
    | cons c rest =>
        simp only [htext, List.head?_cons, Option.some.injEq] at hbehind
        exact ⟨c, rest, rfl, by rcases hbehind with rfl | rfl <;> decide⟩
  refine calm_name hlocal hname (fun d hd => ?_) (.inl ?_)
  · rw [htext] at hd
    rwa [← Option.some.inj hd]
  · rw [skipTo?_eq_none, htext, trimStart, List.dropWhile_cons_of_neg (by simp [hblank])]
    simpa using hparen

theorem calm_sum (h : Spelled count head paren inside close) (previous : Option Char)
    (behind : List Cell) : Calm marks previous (codeRow count.sum) behind := by
  have hrow : codeRow count.sum =
      codeRow count.label ++ (codeRow ":sum(".toList ++ (codeRow count.flag ++ codeRow [')'])) := by
    simp [Count.sum, codeRow]
  rw [hrow, calm_append, calm_append, calm_append]
  exact ⟨calm_label hlocal h.label (.inl rfl) _,
    calm_words hlocal [("", ":"), ("sum", "(")] (by decide),
    calm_label hlocal h.flag_name (.inr rfl) _, calm_words hlocal [("", ")")] (by decide)⟩

theorem calm_derivationRow {segment : Segment}
    (h : Spelled segment.count segment.head segment.paren segment.inside segment.close)
    (hinside : Calm marks none (trimCells segment.inside) []) :
    Calm marks none segment.derivationRow [] := by
  have hrow : segment.derivationRow = codeRow segment.count.flag ++ (codeRow ":if(".toList ++
      (trimCells segment.inside ++ codeRow ", 1, 0)".toList)) := by
    simp [Segment.derivationRow, codeRow]
  rw [hrow, calm_append, calm_append, calm_append]
  refine ⟨calm_label hlocal h.flag_name (.inl rfl) _,
    calm_words hlocal [("", ":"), ("if", "(")] (by decide), ?_,
    calm_words hlocal [("", ", "), ("1", ", "), ("0", ")")] (by decide)⟩
  refine (calm_between hlocal ?_ (parted_of_stop (by decide) _)).mpr hinside
  intro c hc
  obtain rfl : '(' = c := by simpa using hc
  decide

theorem calm_inside {previous : Option Char} {segment : Segment} {behind : List Cell}
    (hspelled : Spelled segment.count segment.head segment.paren segment.inside segment.close)
    (h : Calm marks previous segment.call behind) :
    Calm marks none (trimCells segment.inside) [] := by
  rw [Segment.call, calm_append] at h
  have hinside := (calm_append.mp h.2.2).1
  obtain ⟨blanks, spaces, hrow, hblanks, hspaces⟩ := exists_trimCells segment.inside
  rw [hrow, calm_append, calm_append] at hinside
  refine (calm_between hlocal ?_ ?_).mp hinside.2.1
  · intro c hc
    rw [Bytes.char_of_isCode hspelled.paren, Option.mem_def, Option.or_eq_some_iff] at hc
    rcases hc with hc | ⟨-, hc⟩
    · exact startsPath_of_isBlank (forall_mem_text hblanks c (List.mem_of_getLast? hc)) c rfl
    · obtain rfl := Option.some.inj hc
      decide
  · exact parted_of_blanks hspaces (by rw [Bytes.char_of_isCode hspelled.close]; decide) _

theorem calm_segments {segments : List Segment} {tail behind : List Cell}
    (hspelled : ∀ segment ∈ segments,
      Spelled segment.count segment.head segment.paren segment.inside segment.close)
    (hkept : ∀ segment ∈ segments, StartsPath (text segment.kept).getLast?)
    (hbehind : Parted tail behind) {previous : Option Char}
    (h : Calm marks previous (segments.flatMap Segment.cells ++ tail) []) :
    Calm marks previous (segments.flatMap Segment.sumRow ++ tail) behind ∧
      ∀ segment ∈ segments, Calm marks none (trimCells segment.inside) [] := by
  induction segments generalizing previous with
  | nil => exact ⟨h.part hlocal (parted_nil tail) hbehind, by simp⟩
  | cons segment segments ih =>
      obtain ⟨hfirst, hothers⟩ := List.forall_mem_cons.mp hspelled
      obtain ⟨hfree, hfrees⟩ := List.forall_mem_cons.mp hkept
      have hparted {row : List Cell} (hrow : Blunt (text row)) : Parted segment.kept row :=
        ⟨.inl fun c hc => by simpa [Option.mem_def.mp hc] using ((startsPath_iff _).mp hfree).2, hrow⟩
      rw [List.flatMap_cons, List.append_assoc, calm_append, getLast?_cells hfirst, Option.some_or,
        Segment.cells, calm_append] at h
      obtain ⟨⟨hfront, hcall⟩, hrest⟩ := h
      obtain ⟨hsums, hinsides⟩ := ih hothers hfrees hrest
      refine ⟨?_, List.forall_mem_cons.mpr ⟨calm_inside hlocal hfirst hcall, hinsides⟩⟩
      rw [List.flatMap_cons, List.append_assoc, calm_append, getLast?_sumRow, Option.some_or,
        Segment.sumRow, calm_append]
      refine ⟨⟨hfront.part hlocal (hparted ?_) (hparted ?_), calm_sum hlocal hfirst _ _⟩, hsums⟩
      · rw [Segment.call, List.append_assoc, List.cons_append]
        exact hfirst.blunt _
      · rw [text_append, text_codeRow]
        exact hfirst.blunt_sum _

theorem calm_derivationsRow {part : Section}
    (hspelled : ∀ segment ∈ part.segments,
      Spelled segment.count segment.head segment.paren segment.inside segment.close)
    (hkept : ∀ segment ∈ part.segments, StartsPath (text segment.kept).getLast?)
    (h : Calm marks none part.body []) {c : Char} (hc : isBlank c = true) :
    Calm marks (some c) part.derivationsRow [] := by
  have hinside := (calm_segments hlocal hspelled hkept (parted_nil part.tail) h).2
  refine calm_intercalate hlocal (fun row hrow => ?_) (startsPath_of_isBlank hc)
  obtain ⟨segment, hsegment, rfl⟩ := List.mem_map.mp hrow
  exact calm_derivationRow hlocal (hspelled segment hsegment) (hinside segment hsegment)

/-- The stages in which the counts are replaced are calm if the stages before were. -/
theorem calm_mended {made : Bool} {parts : List Section} (hspells : Spells parts)
    (hkept : ∀ part ∈ parts, ∀ segment ∈ part.segments, StartsPath (text segment.kept).getLast?)
    (h : ∀ part ∈ parts, Calm marks none part.body []) :
    ∀ stage ∈ mended made parts, Calm marks none stage.body [] := by
  induction parts generalizing made with
  | nil => simp [mended]
  | cons part parts ih =>
      obtain ⟨hspelled, hothers⟩ := List.forall_mem_cons.mp hspells
      obtain ⟨hfree, hfrees⟩ := List.forall_mem_cons.mp hkept
      obtain ⟨hbody, hbodies⟩ := List.forall_mem_cons.mp h
      rw [mended, List.forall_mem_append, List.forall_mem_cons]
      refine ⟨?_, ?_, ih hothers hfrees hbodies⟩
      · split
        · simp
        · rw [List.forall_mem_singleton, Section.flags, calm_append]
          exact ⟨calm_words hlocal [("make_col", " ")] (by decide),
            calm_derivationsRow hlocal hspelled hfree hbody (by decide)⟩
      · obtain hrow | ⟨other, hother, hrow⟩ := carriedRow_cases part.makes parts
        · rw [hrow, List.append_nil]
          exact (calm_segments hlocal hspelled hfree (parted_nil part.tail) hbody).1
        · rw [hrow, calm_append, calm_append]
          refine ⟨(calm_segments hlocal hspelled hfree (parted_of_stop (by decide) part.tail) hbody).1,
            calm_words hlocal [("", ", ")] (by decide), ?_⟩
          exact calm_derivationsRow hlocal (hothers other hother) (hfrees other hother)
            (hbodies other hother) (by decide)

end Calm

/-! ## In front of counts -/

theorem Segment.Placed.start {start : Nat} {a b : List Segment} {segment : Segment}
    (h : Placed start (a ++ segment :: b)) :
    segment.count.span.start = start + (a.flatMap cells ++ segment.kept).length := by
  induction a generalizing start with
  | nil => rw [h.2.1]; rfl
  | cons first a ih =>
      rw [ih h.2.2, List.flatMap_cons, List.append_assoc, Nat.add_assoc, ← List.length_append]

section Query

variable {query : List Char} {parts : List Section}

theorem startsPath_kept (hstages : (layout query).stages = parts.map Section.stage)
    (hcut : Cut (found query) 0 (layout query).lead.length parts) :
    ∀ part ∈ parts, ∀ segment ∈ part.segments, StartsPath (text segment.kept).getLast? := by
  intro part hpart segment hsegment
  obtain ⟨pre, post, rfl⟩ := List.append_of_mem hpart
  obtain ⟨a, b, hsegments⟩ := List.append_of_mem hsegment
  obtain ⟨hcounts, hplaced⟩ := hcut.split
  have hcount : segment.count ∈ found query := by
    refine List.mem_of_mem_filter (p := (·.stage == 0 + pre.length)) ?_
    rw [← hcounts]
    exact List.mem_map_of_mem hsegment
  obtain ⟨front, rest, hcells, -, hfound⟩ := (mem_counts _).mp hcount
  rw [hsegments] at hplaced
  have hlength : front.length = _ := (start_of_countAt? hfound).symm.trans hplaced.start
  -- The site of the count is the place behind what its segment keeps.
  obtain ⟨behind, hfront⟩ : ∃ behind, cells query = (layout query).lead ++
      (pre.map Section.stage).flatMap Stage.cells ++ (a.flatMap Segment.cells ++ segment.kept) ++
        behind := by
    rw [cells_eq_layout, hstages]
    simp [Section.stage, Section.body, Stage.cells, Segment.cells, hsegments]
  have hsame : front = _ := (List.append_inj (hcells.symm.trans hfront) (by
    rw [hlength]
    simp [Nat.add_assoc])).1
  intro c hc
  have hprevious : (text front).getLast? = some c := by
    rw [hsame, ← List.append_assoc, text_append, List.getLast?_append, Option.mem_def.mp hc]
    rfl
  have hsite := site_of_countAt? hfound
  simp only [Bool.or_eq_false_iff, Bool.not_eq_eq_eq_not, Bool.not_false, Site.startsWord,
    Site.continuesPath] at hsite
  rw [hprevious] at hsite
  exact (startsPath_iff (some c)).mpr ⟨hsite.1.2, hsite.2⟩ c rfl

end Query

/-! ## Verbs -/

theorem leadingName?_append (front : List Char) {a b : List Char} (ha : trimStart a = a)
    (hb : trimStart b = b) (h : a.takeWhile isNameChar = b.takeWhile isNameChar) :
    leadingName? (front ++ a) = leadingName? (front ++ b) := by
  have hname : (trimStart (front ++ a)).takeWhile isNameChar =
      (trimStart (front ++ b)).takeWhile isNameChar := by
    rw [trimStart] at ha hb
    rw [trimStart, trimStart, List.dropWhile_append, List.dropWhile_append, ha, hb]
    split
    · exact h
    · rw [List.takeWhile_append, List.takeWhile_append, h]
  rw [leadingName?, leadingName?, hname]

theorem Spelled.trimStart_text (h : Spelled count head paren inside close) (rest : List Char) :
    trimStart (count.label ++ rest) = count.label ++ rest := by
  obtain ⟨c, name, hlabel, -, hblank, -⟩ := h.solid
  rw [hlabel, List.cons_append, trimStart, List.dropWhile_cons_of_neg (by simp [hblank])]

theorem verb?_summedRow {part : Section} (hspelled : ∀ segment ∈ part.segments,
      Spelled segment.count segment.head segment.paren segment.inside segment.close) :
    Stage.verb? ⟨part.summedRow, part.gap⟩ = part.stage.verb? := by
  obtain ⟨segments, tail, gap⟩ := part
  cases segments with
  | nil => rfl
  | cons segment segments =>
      have hsegment := hspelled segment List.mem_cons_self
      obtain ⟨gap', blanks, spaces, -, -, -, hhead⟩ := hsegment.name
      have hcall (back : List Cell) :
          trimStart (text (segment.call ++ back)) = text (segment.call ++ back) := by
        simp only [Segment.call, text_append, hhead, List.append_assoc]
        exact hsegment.trimStart_text _
      have hsum (rest : List Char) :
          trimStart (segment.count.sum ++ rest) = segment.count.sum ++ rest := by
        simp only [Count.sum, List.append_assoc]
        exact hsegment.trimStart_text _
      have hname := leadingName?_append (text segment.kept)
        (hsum (text (segments.flatMap Segment.sumRow ++ tail)))
        (hcall (segments.flatMap Segment.cells ++ tail)) (takeWhile_sum hsegment _ _).symm
      rw [Stage.verb?, Stage.verb?, Stage.text, Stage.text]
      simpa [Section.summedRow, Section.stage, Section.body, Segment.sumRow, Segment.cells] using
        congrArg (Option.map String.ofList) hname

/-- A stage of the mended ones is one of the stages before, or it aggregates or derives columns. -/
theorem mem_mended {made : Bool} {parts : List Section} (hspells : Spells parts)
    (hparts : ∀ part ∈ parts, part.segments ≠ [] → Aggregates part.stage) {stage : Stage}
    (h : stage ∈ mended made parts) : (∃ part ∈ parts, stage = part.stage) ∨ Aggregates stage ∨
      stage.verb? = some "make_col" := by
  induction parts generalizing made with
  | nil => simp [mended] at h
  | cons part parts ih =>
      have hpart := hparts part List.mem_cons_self
      rw [mended, List.mem_append, List.mem_cons] at h
      rcases h with h | rfl | h
      · split at h
        · simp at h
        · obtain rfl := List.mem_singleton.mp h
          exact .inr (.inr (verb?_flags part))
      · by_cases hmakes : part.makes = true
        · exact .inr (.inr (verb?_makes hmakes hpart))
        · rw [if_neg hmakes, List.append_nil]
          by_cases hnil : part.segments = []
          · refine .inl ⟨part, List.mem_cons_self, ?_⟩
            simp [Section.summedRow, Section.stage, Section.body, hnil]
          · obtain ⟨verb, hverb, haggregation⟩ := hpart hnil
            refine .inr (.inl ⟨verb, ?_, haggregation⟩)
            rw [verb?_summedRow (hspells part List.mem_cons_self), hverb]
      · rcases ih (fun x hx => hspells x (by simp [hx])) (fun x hx => hparts x (by simp [hx])) h with
          ⟨other, hother, rfl⟩ | hverb
        · exact .inl ⟨other, List.mem_cons_of_mem part hother, rfl⟩
        · exact .inr hverb

theorem mem_mended_of_plain {made : Bool} {parts : List Section} {part : Section}
    (hpart : part ∈ parts) (hsegments : part.segments = []) (hmakes : part.makes = false) :
    part.stage ∈ mended made parts := by
  induction parts generalizing made with
  | nil => simp at hpart
  | cons first parts ih =>
      rw [mended, List.mem_append, List.mem_cons]
      rcases List.mem_cons.mp hpart with rfl | hpart
      · refine .inr (.inl ?_)
        simp [hmakes, Section.summedRow, Section.stage, Section.body, hsegments]
      · exact .inr (.inr (ih hpart))

end FlagCount

end OpalRepair
