import Mathlib
import OpalRepair.Proofs.Bytes.Stage
import OpalRepair.Proofs.Code
import OpalRepair.Proofs.Sound

/-!
# What changes account for

A patch keeps some texts and changes others.  Its changes, put between the texts it keeps, give the
query on one side and the outcome on the other, so the two differ where a change says so and
nowhere else.  The changes start in code: a fragment is only replaced where no literal holds its
first character, and a stage with a verb starts behind a separator.

Main statement: `changes_account_for_output`.
-/

namespace OpalRepair

open Query Text

/-! ## Where stages start -/

namespace Query

/-- A row behind which a stage may start: it ends with gaps that stand at the start of a query or
behind a separator. -/
def LeadsIn (before : List Cell) : Prop :=
  ∃ front gaps, before = front ++ gaps ∧ (∀ cell ∈ gaps, cell.isGap = true) ∧
    ∀ cell ∈ front.getLast?, cell.isSeparator = true

theorem leadsIn_placesFrom {before : List Cell} {stages : List Stage}
    (hstages : Stage.Apart stages) (hbefore : LeadsIn before) :
    ∀ place ∈ placesFrom before stages, LeadsIn place.1 := by
  induction stages generalizing before with
  | nil => simp [placesFrom]
  | cons stage stages ih =>
      obtain ⟨htrimmed, hgap, hrest⟩ := hstages
      rw [placesFrom, List.forall_mem_cons]
      refine ⟨hbefore, ?_⟩
      rcases hgap with rfl | hgap
      · simp [placesFrom]
      · obtain ⟨separator, hmem, hseparator⟩ := List.any_eq_true.mp hgap
        obtain ⟨front, back, hsplit⟩ := List.append_of_mem hmem
        refine ih hrest ⟨before ++ stage.body ++ front ++ [separator], back, ?_, ?_, ?_⟩
        · simp [Stage.cells, hsplit]
        · exact fun cell hcell => htrimmed.gap cell (by simp [hsplit, hcell])
        · simpa using hseparator

theorem leadsIn_of_mem_places {query : List Char} {place : List Cell × Stage}
    (h : place ∈ places query) : LeadsIn place.1 := by
  refine leadsIn_placesFrom (Layout.apart (cells query)) ?_ place h
  exact ⟨[], _, rfl, Layout.gap_lead (cells query), by simp⟩

theorem LeadsIn.not_isLiteral {query : List Char} {before after : List Cell} {cell : Cell}
    (h : LeadsIn before) (hcells : cells query = before ++ cell :: after)
    (hcell : cell.char ≠ '"' ∧ cell.char ≠ '\'' ∧ cell.char ≠ '/') : cell.isLiteral = false := by
  obtain ⟨front, gaps, rfl, hgaps, hfront⟩ := h
  have hpart : ∀ other ∈ gaps ++ [cell],
      other.char ≠ '"' ∧ other.char ≠ '\'' ∧ other.char ≠ '/' := by
    intro other hother
    rcases List.mem_append.mp hother with hother | hother
    · rcases Bool.or_eq_true_iff.mp (hgaps other hother) with hseparator | hblank
      · have hmem : other ∈ cells query := by rw [hcells]; simp [hother]
        simp [Scanner.char_of_isSeparator hmem hseparator]
      · obtain ⟨hdouble, hsingle, hslash, -⟩ := plain_of_isBlank hblank
        exact ⟨hdouble, hsingle, hslash⟩
    · exact List.mem_singleton.mp hother ▸ hcell
  -- The gaps belong to code, at the start of a query as behind a separator.
  have hcode : ∀ other ∈ gaps ++ [cell], other.isLiteral = false := by
    rcases front.eq_nil_or_concat' with rfl | ⟨front, separator, rfl⟩
    · have hpaint : Scanner.paint {} query = (gaps ++ [cell]) ++ after := by
        simpa [cells] using hcells
      exact Scanner.paint_code rfl hpaint hpart
    · have hliteral : separator.isLiteral = false := by
        have hrole : separator.role = .separator := by simpa [Cell.isSeparator] using hfront
        simp [Cell.isLiteral, hrole, Role.isLiteral]
      have hpaint : Scanner.paint {} query =
          front ++ separator :: ((gaps ++ [cell]) ++ after) := by
        simpa [cells] using hcells
      exact Scanner.paint_behind_code hpaint hliteral hpart
  exact hcode cell (by simp)

theorem exists_first_of_verb? {query : List Char} {place : List Cell × Stage} {verb : String}
    (h : place ∈ places query) (hverb : place.2.verb? = some verb) :
    ∃ first rest, place.2.body = first :: rest ∧ isNameChar first.char = true ∧
      first.isLiteral = false := by
  obtain ⟨hname, hne⟩ := (trimmed_of_mem_places h).text_of_verb? hverb
  obtain ⟨after, hcells⟩ := cells_of_mem_places h
  cases hbody : place.2.body with
  | nil =>
      rw [← hname, Stage.text, hbody] at hne
      simp at hne
  | cons cell body =>
      have hstart : isNameChar cell.char = true := by
        by_contra hchar
        rw [← hname, Stage.text, hbody] at hne
        simp [hchar] at hne
      have hcell : cell.char ≠ '"' ∧ cell.char ≠ '\'' ∧ cell.char ≠ '/' := by
        refine ⟨?_, ?_, ?_⟩ <;> intro heq <;> rw [heq] at hstart <;> revert hstart <;> decide
      rw [hbody, List.append_assoc, List.cons_append] at hcells
      exact ⟨cell, body, rfl, hstart, (leadsIn_of_mem_places h).not_isLiteral hcells hcell⟩

theorem code_of_verb? {query : List Char} {place : List Cell × Stage} {verb : String}
    (h : place ∈ places query) (hverb : place.2.verb? = some verb) :
    place.2.text ≠ [] ∧ (scan query).inLiteral (byteSize (text place.1)) = false := by
  obtain ⟨first, rest, hbody, -, hcode⟩ := exists_first_of_verb? h hverb
  obtain ⟨after, hcells⟩ := cells_of_mem_places h
  rw [hbody, List.append_assoc, List.cons_append] at hcells
  refine ⟨by simp [Stage.text, hbody], (Bytes.inLiteral_head place.1 _ hcells).trans ?_⟩
  simpa using hcode

end Query

/-! ## Changes in code -/

namespace Patch

def InCode (query : List Char) (patch : Patch) : Prop :=
  ∀ rewrite ∈ Bytes.rewritesAt 0 patch,
    rewrite.found ≠ [] ∧ (scan query).inLiteral rewrite.start = false

theorem inCode_ofStages {query : List Char} {mend? : Stage → Option (List Char)}
    (h : ∀ stage replacement, mend? stage = some replacement → ∃ verb, stage.verb? = some verb) :
    InCode query (ofStages mend? (layout query)) := by
  intro rewrite hrewrite
  rw [ofStages, Bytes.rewritesAt, Nat.zero_add, Bytes.rewritesAt_ofStages,
    List.reduceOption_mem_iff, List.mem_map] at hrewrite
  obtain ⟨place, hplace, hsome⟩ := hrewrite
  obtain ⟨replacement, hmend, rfl⟩ := Option.map_eq_some_iff.mp hsome
  obtain ⟨verb, hverb⟩ := h place.2 replacement hmend
  exact code_of_verb? hplace hverb

section Fragments

variable {query : List Char} {find? : Option Char → List Cell → Option Fragment}

theorem code_of_mem_walk
    (h : ∀ previous row fragment, find? previous row = some fragment →
      fragment.replacement.isSome = true → row.head?.any Cell.isLiteral = false)
    (before row : List Cell) (hcells : cells query = before ++ row) (skip : Nat)
    (previous : Option Char) :
    ∀ rewrite ∈ Bytes.rewritesAt (byteSize (text before) + byteSize (text (row.take skip)))
        (walk find? skip previous row),
      rewrite.found ≠ [] ∧ (scan query).inLiteral rewrite.start = false := by
  -- `before` holds the cells already passed; what is found next starts where they end.
  induction row generalizing before skip previous with
  | nil => simp [walk, Bytes.rewritesAt]
  | cons cell row ih =>
      have hnext := ih (before ++ [cell]) (by simp [hcells])
      simp only [text_append, text_cons, text_nil, byteSize_append, byteSize_cons, byteSize_nil,
        Nat.add_zero] at hnext
      cases skip with
      | succ skip =>
          rw [walk, List.take_succ_cons, text_cons, byteSize_cons, ← Nat.add_assoc]
          exact hnext skip _
      | zero =>
          rw [walk]
          cases hfind : find? previous (cell :: row) with
          | none => simpa [Bytes.rewritesAt] using hnext 0 (some cell.char)
          | some fragment =>
              have hrest := hnext fragment.more (some cell.char)
              cases hreplacement : fragment.replacement with
              | none =>
                  simpa [Fragment.piece, hreplacement, Bytes.rewritesAt, Nat.add_assoc] using hrest
              | some replacement =>
                  have hcode := h previous _ fragment hfind (by simp [hreplacement])
                  rw [← Bytes.inLiteral_head before _ hcells] at hcode
                  simp only [Fragment.piece, hreplacement, Bytes.rewritesAt, List.take_zero,
                    text_nil, byteSize_nil, Nat.add_zero, List.take_succ_cons, text_cons,
                    byteSize_cons, ← Nat.add_assoc]
                  exact List.forall_mem_cons.mpr ⟨⟨by simp, hcode⟩, hrest⟩

theorem inCode_ofFragments
    (h : ∀ previous row fragment, find? previous row = some fragment →
      fragment.replacement.isSome = true → row.head?.any Cell.isLiteral = false) :
    InCode query (ofFragments find? (cells query)) := by
  intro rewrite hrewrite
  refine code_of_mem_walk h [] (cells query) rfl 0 none rewrite ?_
  simpa [ofFragments] using hrewrite

end Fragments

end Patch

/-! ## Weaving -/

/-- Fragments and the texts between them: `lead`, then each fragment with the text behind it. -/
def weave : String → List (String × String) → String
  | lead, [] => lead
  | lead, (fragment, gap) :: parts => lead ++ fragment ++ weave gap parts

theorem weave_append (text lead : String) (parts : List (String × String)) :
    weave (text ++ lead) parts = text ++ weave lead parts := by
  cases parts with
  | nil => rfl
  | cons part parts => simp [weave, String.append_assoc]

namespace Patch

def lead : Patch → List Char
  | [] => []
  | .keep text :: patch => text ++ lead patch
  | .change _ _ :: _ => []

def gaps : Patch → List (List Char)
  | [] => []
  | .keep _ :: patch => gaps patch
  | .change _ _ :: patch => lead patch :: gaps patch

theorem length_gaps (patch : Patch) : patch.gaps.length = patch.changes.length := by
  induction patch with
  | nil => rfl
  | cons piece patch ih => cases piece <;> simp [gaps, ih]

def woven (side : Change → String) (patch : Patch) : List (String × String) :=
  (patch.changes.map side).zip (patch.gaps.map String.ofList)

theorem woven_keep (side : Change → String) (text : List Char) (patch : Patch) :
    woven side (.keep text :: patch) = woven side patch := rfl

theorem woven_change (side : Change → String) (found replacement : List Char) (patch : Patch) :
    woven side (.change found replacement :: patch) =
      (side ⟨String.ofList found, String.ofList replacement⟩, String.ofList patch.lead) ::
        woven side patch := rfl

theorem weave_woven {side : Change → String} {read : Piece → List Char}
    (hkeep : ∀ text, read (.keep text) = text)
    (hchange : ∀ found replacement, String.ofList (read (.change found replacement)) =
      side ⟨String.ofList found, String.ofList replacement⟩) (patch : Patch) :
    weave (String.ofList patch.lead) (woven side patch) =
      String.ofList (patch.flatMap read) := by
  induction patch with
  | nil => rfl
  | cons piece patch ih =>
      cases piece with
      | keep text => simp [lead, woven_keep, weave_append, ih, hkeep]
      | change found replacement => simp [lead, woven_change, weave, ih, hchange]

theorem exists_rewrite (patch : Patch) (offset : Nat) {i : Nat} (hi : i < patch.changes.length) :
    ∃ rewrite ∈ Bytes.rewritesAt offset patch,
      patch.changes[i] = rewrite.change ∧ rewrite.start = offset +
        byteSize (weave (String.ofList patch.lead) ((woven Change.found patch).take i)).toList := by
  induction patch generalizing offset i with
  | nil => simp at hi
  | cons piece patch ih =>
      cases piece with
      | keep text =>
          obtain ⟨rewrite, hmem, hchange, hstart⟩ := ih (offset + byteSize text) hi
          refine ⟨rewrite, hmem, hchange, ?_⟩
          simp [lead, woven_keep, weave_append, hstart, Nat.add_assoc]
      | change found replacement =>
          cases i with
          | zero =>
              refine ⟨_, List.mem_cons_self, rfl, ?_⟩
              simp [lead, weave]
          | succ i =>
              obtain ⟨rewrite, hmem, hchange, hstart⟩ :=
                ih (offset + byteSize found) (Nat.lt_of_succ_lt_succ hi)
              refine ⟨rewrite, List.mem_cons_of_mem _ hmem, hchange, ?_⟩
              simp [lead, woven_change, weave, hstart, Nat.add_assoc]

/-- The texts that a patch keeps stand around its changes before and after, and the changes start
in code if the patch does all its work there. -/
theorem InCode.exists_weave {query : String} {patch : Patch} (hcode : patch.InCode query.toList)
    (hbefore : patch.before = query.toList) :
    ∃ (lead : String) (gaps : List String),
      let found := (patch.changes.map Change.found).zip gaps
      let replaced := (patch.changes.map Change.replacement).zip gaps
      gaps.length = patch.changes.length ∧ query = weave lead found ∧
        String.ofList patch.after = weave lead replaced ∧
        ∀ (i : Nat) (hi : i < patch.changes.length), patch.changes[i].found ≠ "" ∧
          (scan query.toList).inLiteral (byteSize (weave lead (found.take i)).toList) = false := by
  refine ⟨String.ofList patch.lead, patch.gaps.map String.ofList, ?_, ?_, ?_, fun i hi => ?_⟩
  · rw [List.length_map, patch.length_gaps]
  · have hfound : String.ofList patch.before = weave _ (woven Change.found patch) :=
      (weave_woven (fun _ => rfl) (fun _ _ => rfl) patch).symm
    rwa [hbefore, String.ofList_toList] at hfound
  · exact (weave_woven (fun _ => rfl) (fun _ _ => rfl) patch).symm
  · obtain ⟨rewrite, hmem, hchange, hstart⟩ := patch.exists_rewrite 0 hi
    obtain ⟨hfound, hliteral⟩ := hcode rewrite hmem
    rw [hstart, Nat.zero_add] at hliteral
    refine ⟨?_, hliteral⟩
    rw [hchange]
    simpa [Bytes.Rewrite.change] using hfound

end Patch

/-! ## The passes that patch -/

theorem AlignMetric.inCode_patch (query : List Char) : (patch query).InCode query := by
  rw [patch]
  split
  · simp [Patch.InCode, Bytes.rewritesAt]
  · refine Patch.inCode_ofStages fun stage replacement hmend => ?_
    obtain ⟨selection, -, hmend⟩ := Option.bind_eq_some_iff.mp hmend
    obtain ⟨call, -, hmend⟩ := Option.bind_eq_some_iff.mp hmend
    obtain ⟨verb, hverb, -⟩ := Option.bind_eq_some_iff.mp hmend
    exact ⟨verb, hverb⟩

theorem SortCall.inCode_patch (query : List Char) : (patch query).InCode query := by
  refine Patch.inCode_ofStages fun stage replacement hmend => ⟨"sort", ?_⟩
  by_contra hverb
  simp [mendStage?, Stage.hasVerb, hverb] at hmend

theorem QuoteKey.inCode_patch (query : List Char) : (patch query).InCode query := by
  refine Patch.inCode_ofFragments fun previous row fragment hfind hreplaced => ?_
  rw [fragment?] at hfind
  split at hfind
  · simp at hfind
  · obtain ⟨⟨parent, key⟩, -, rfl⟩ := Option.map_eq_some_iff.mp hfind
    by_contra hliteral
    rw [Bool.not_eq_false] at hliteral
    simp [Site.inLiteral, hliteral] at hreplaced

theorem ExpandTerms.inCode_patch (query : List Char) : (patch query).InCode query := by
  refine Patch.inCode_ofFragments fun previous row fragment hfind hreplaced => ?_
  rw [fragment?] at hfind
  split at hfind
  · simp at hfind
  · obtain ⟨search, -, rfl⟩ := Option.map_eq_some_iff.mp hfind
    by_contra hliteral
    rw [Bool.not_eq_false] at hliteral
    simp [Site.inLiteral, hliteral] at hreplaced

theorem exists_patch {pass : Pass} (h : pass ∈ [alignMetric, quoteKey, expandTerms, sortCall]) :
    ∃ name rationale patch, pass = .ofPatch name rationale patch ∧
      ∀ query, (patch query).before = query ∧ (patch query).InCode query := by
  simp only [List.mem_cons, List.not_mem_nil, or_false] at h
  rcases h with rfl | rfl | rfl | rfl
  · exact ⟨_, _, _, rfl, fun query =>
      ⟨AlignMetric.before_patch query, AlignMetric.inCode_patch query⟩⟩
  · exact ⟨_, _, _, rfl, fun query => ⟨QuoteKey.before_patch query, QuoteKey.inCode_patch query⟩⟩
  · exact ⟨_, _, _, rfl, fun query =>
      ⟨ExpandTerms.before_patch query, ExpandTerms.inCode_patch query⟩⟩
  · exact ⟨_, _, _, rfl, fun query => ⟨SortCall.before_patch query, SortCall.inCode_patch query⟩⟩

/-- A pass that patches tells the truth about what it did.  The query is `lead`, then what each
change found and the text behind it; the outcome is `lead`, then what each change put there and
the same texts.  No change is empty, and each starts outside the literals of the query. -/
theorem changes_account_for_output {pass : Pass}
    (hpass : pass ∈ [alignMetric, quoteKey, expandTerms, sortCall]) (context : Context)
    (query : String) {transformation : Transformation}
    (h : (pass.apply context query).transformation = some transformation) :
    transformation.changes ≠ [] ∧
      ∃ (lead : String) (gaps : List String),
        let found := (transformation.changes.map Change.found).zip gaps
        let replaced := (transformation.changes.map Change.replacement).zip gaps
        gaps.length = transformation.changes.length ∧ query = weave lead found ∧
          (pass.apply context query).query = weave lead replaced ∧
          ∀ (i : Nat) (hi : i < transformation.changes.length),
            transformation.changes[i].found ≠ "" ∧
              (scan query.toList).inLiteral (byteSize (weave lead (found.take i)).toList) =
                false := by
  obtain ⟨name, rationale, patch, rfl, hpatch⟩ := exists_patch hpass
  obtain ⟨hbefore, hcode⟩ := hpatch query.toList
  simp only [Pass.ofPatch, Outcome.ofChanges] at h
  split at h
  · simp at h
  · rename_i hchanges
    obtain rfl := Option.some.inj h
    exact ⟨by simpa using hchanges, hcode.exists_weave hbefore⟩

/-- Two keys are quoted, and the one in a literal between them is not. -/
theorem changes_account_for_output_literal :
    let query := "é = labels.os.type or 'labels.os.type' = labels.db.name"
    let changes : List Change :=
      [⟨"labels.os.type", "labels.\"os.type\""⟩, ⟨"labels.db.name", "labels.\"db.name\""⟩]
    (quoteKey.apply {} query).transformation = some ⟨"nested_field", changes, QuoteKey.rationale⟩ ∧
      ∃ (lead : String) (gaps : List String), gaps.length = 2 ∧
        query = weave lead ((changes.map Change.found).zip gaps) ∧
        (quoteKey.apply {} query).query = weave lead ((changes.map Change.replacement).zip gaps) := by
  intro query changes
  have hfired : (quoteKey.apply {} query).transformation =
      some ⟨"nested_field", changes, QuoteKey.rationale⟩ := by decide
  obtain ⟨-, lead, gaps, hlength, hquery, houtput, -⟩ :=
    changes_account_for_output (by simp) {} query hfired
  exact ⟨hfired, lead, gaps, hlength, hquery, houtput⟩

end OpalRepair
