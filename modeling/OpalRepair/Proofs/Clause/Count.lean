import Mathlib
import OpalRepair.Proofs.Clause.Stage

/-!
# Counts of clauses

Where the conditional counts of clauses stand, and the edits for them.
-/

namespace OpalRepair

open Query Text Vocabulary AlignMetric

namespace FlagCount

/-! ## Texts without a count -/

def Countless (text behind : List Char) : Prop :=
  ∀ n < text.length, countHead? (text.drop n ++ behind) = none

theorem Countless.append {a b behind : List Char} (ha : Countless a (b ++ behind))
    (hb : Countless b behind) : Countless (a ++ b) behind := by
  intro n hn
  rw [List.length_append] at hn
  rw [List.drop_append]
  by_cases h : n < a.length
  · rw [show n - a.length = 0 by omega, List.drop_zero, List.append_assoc]
    exact ha n h
  · rw [List.drop_of_length_le (by omega), List.nil_append]
    exact hb _ (by omega)

theorem countHead?_eq_none {text : List Char} (h : Unmarked ':' text) : countHead? text = none := by
  rw [countHead?]
  split
  · rfl
  · rw [Unmarked] at h
    rw [h, Option.bind_none]

theorem countless_of_no_colon {text behind : List Char} (htext : ':' ∉ text)
    (hbehind : Fence behind) : Countless text behind := fun n _ =>
  countHead?_eq_none (unmarked_append ⟨rfl, rfl, by decide⟩
    (fun h => htext (List.mem_of_mem_drop h)) hbehind)

theorem skipTo?_first {c : Char} (hc : isBlank c = false) {front : List Char} (hfront : c ∉ front)
    (rest : List Char) : skipTo? c (front ++ c :: rest) = none ∨
      skipTo? c (front ++ c :: rest) = some rest := by
  induction front with
  | nil =>
      right
      simp [skipTo?, trimStart, hc]
  | cons d front ih =>
      obtain ⟨hd, hfront⟩ := not_or.mp (List.mem_cons.not.mp hfront)
      by_cases hblank : isBlank d = true
      · simp only [List.cons_append, skipTo?, trimStart, List.dropWhile_cons_of_pos hblank]
        exact ih hfront
      · left
        simp [skipTo?, trimStart, hblank, Ne.symm hd]

theorem countless_call (name : String) {front inside arguments behind : List Char}
    (hname : name ≠ "count_if") (hfront : ':' ∉ front)
    (hcall : callHead? (trimStart (inside ++ behind)) = some (name.toList, arguments))
    (hinside : Countless inside behind) :
    Countless (front ++ ':' :: inside) behind := by
  have hcolon : Countless [':'] (inside ++ behind) := by
    intro n hn
    obtain rfl : n = 0 := by simpa using hn
    rfl
  refine Countless.append (fun n _ => ?_) (hcolon.append hinside)
  have hhead : ∀ c ∈ (':' :: inside ++ behind).head?, isNameChar c = false := by
    rintro c ⟨rfl⟩
    rfl
  have hdrop := (name_append hhead (front.drop n)).2
  have hmem : ':' ∉ (front.drop n).dropWhile isNameChar := fun h =>
    hfront (List.mem_of_mem_drop ((List.dropWhile_sublist _).mem h))
  rw [countHead?, hdrop]
  split
  · rfl
  · rcases skipTo?_first rfl hmem (inside ++ behind) with hskip | hskip
    · rw [List.cons_append, hskip, Option.bind_none]
    · rw [List.cons_append, hskip, Option.bind_some, hcall, Option.bind_some]
      simp [hname]

def counted? : Clause → Option FieldName
  | .mistake (.countIf field) => some field
  | _ => none

theorem eq_countIf_of_counted? {clause : Clause} {field : FieldName}
    (h : counted? clause = some field) : clause = .mistake (.countIf field) := by
  revert h
  rcases clause with shape | shape | shape <;> cases shape <;> simp [counted?]

theorem colon_notMem {clause : Clause} (h : counted? clause = none) : ':' ∉ clause.text ∨
    (∃ label field, clause = .clean (.counts label field)) ∨
    (∃ field, clause = .clean (.measures field)) ∨ (∃ field, clause = .mended (.flags field)) ∨
    (∃ measured field, clause = .mended (.measuresAndFlags measured field)) ∨
    (∃ field, clause = .mended (.sumsFlags field)) ∨ clause = .mended .aligns := by
  have hcolon : IsMark ':' := ⟨rfl, rfl, by decide⟩
  rcases clause with shape | shape | shape <;> cases shape <;>
    simp [counted?, Clause.text, Clause.parts, Clause.verb, Clean.verb, Mistake.verb, Mended.verb,
      Clause.arguments, Clean.arguments, Mistake.arguments, Mended.arguments, Part.text,
      Lexeme.mark_notMem hcolon, Phrase.mark_notMem hcolon] at h ⊢

theorem countless_clause {clause : Clause} (h : counted? clause = none) {behind : List Char}
    (hbehind : Fence behind) : Countless clause.text behind := by
  have hcolon : IsMark ':' := ⟨rfl, rfl, by decide⟩
  rcases colon_notMem h with hnone | ⟨label, field, rfl⟩ | ⟨field, rfl⟩ | ⟨field, rfl⟩ |
    ⟨measured, field, rfl⟩ | ⟨field, rfl⟩ | rfl
  · exact countless_of_no_colon hnone hbehind
  · have htext : (Clause.clean (.counts label field)).text = ("statsby ".toList ++ label.text) ++
        ':' :: ("count(), group_by(".toList ++ (field.text ++ ")".toList)) := by
      simp [Clause.text, Clause.parts, Clause.verb, Clean.verb, Clause.arguments, Clean.arguments,
        Part.text]
    rw [htext]
    refine countless_call "count" (by decide) ?_ rfl (countless_of_no_colon ?_ hbehind) <;>
      simp [Lexeme.mark_notMem hcolon]
  · have htext : (Clause.clean (.measures field)).text = ("make_col ".toList ++ field.text) ++
        ':' :: "strlen(name)".toList := by
      simp [Clause.text, Clause.parts, Clause.verb, Clean.verb, Clause.arguments, Clean.arguments,
        Part.text]
    rw [htext]
    refine countless_call "strlen" (by decide) ?_ rfl (countless_of_no_colon ?_ hbehind) <;>
      simp [Lexeme.mark_notMem hcolon]
  · have htext : (Clause.mended (.flags field)).text =
        ("make_col ".toList ++ (field.text ++ "_flag".toList)) ++
          ':' :: "if(code >= 500, 1, 0)".toList := by
      simp [Clause.text, Clause.parts, Clause.verb, Mended.verb, Clause.arguments, Mended.arguments,
        Part.text]
    rw [htext]
    refine countless_call "if" (by decide) ?_ rfl (countless_of_no_colon ?_ hbehind) <;>
      simp [Lexeme.mark_notMem hcolon]
  · have htext : (Clause.mended (.measuresAndFlags measured field)).text =
        ("make_col ".toList ++ measured.text) ++ ':' :: (("strlen(name), ".toList ++
          (field.text ++ "_flag".toList)) ++ ':' :: "if(code >= 500, 1, 0)".toList) := by
      simp [Clause.text, Clause.parts, Clause.verb, Mended.verb, Clause.arguments, Mended.arguments,
        Part.text]
    rw [htext]
    refine countless_call "strlen" (by decide) ?_ rfl
      (countless_call "if" (by decide) ?_ rfl (countless_of_no_colon ?_ hbehind)) <;>
      simp [Lexeme.mark_notMem hcolon]
  · have htext : (Clause.mended (.sumsFlags field)).text = ("statsby ".toList ++ field.text) ++
        ':' :: ("sum(".toList ++ (field.text ++ "_flag)".toList)) := by
      simp [Clause.text, Clause.parts, Clause.verb, Mended.verb, Clause.arguments, Mended.arguments,
        Part.text]
    rw [htext]
    refine countless_call "sum" (by decide) ?_ rfl (countless_of_no_colon ?_ hbehind) <;>
      simp [Lexeme.mark_notMem hcolon]
  · have htext : (Clause.mended .aligns).text = "align cpu".toList ++
        ':' :: "avg(m(\"cpu\"))".toList := by
      decide
    rw [htext]
    exact countless_call "avg" (by decide) (by decide) rfl
      (countless_of_no_colon (by decide) hbehind)

theorem countAt?_eq_none {layout : Layout} {site : Site} (h : countHead? (text site.rest) = none) :
    countAt? layout site = none := by
  rw [countAt?, h]
  simp

section

variable (layout : Layout)

theorem filterMap_of_countless {row behind : List Cell} (h : Countless (text row) (text behind))
    (index : Nat) (previous : Option Char) :
    (sitesFrom index previous (row ++ behind)).filterMap (countAt? layout) =
      (sitesFrom (index + row.length) ((text row).getLast?.or previous) behind).filterMap
        (countAt? layout) := by
  refine filterMap_sitesFrom (fun n hn index previous => countAt?_eq_none ?_) index previous
  have hnone := h n (by simpa [text] using hn)
  simpa [text, List.map_drop] using hnone

theorem filterMap_name {name : List Char} (hname : ∀ c ∈ name, isNameChar c = true)
    {previous : Char} (hprevious : isNameChar previous = true) (index : Nat) (behind : List Cell) :
    ∃ last, (sitesFrom index (some previous) (codeRow name ++ behind)).filterMap (countAt? layout) =
      (sitesFrom (index + name.length) last behind).filterMap (countAt? layout) := by
  induction name generalizing index previous with
  | nil => exact ⟨some previous, rfl⟩
  | cons c name ih =>
      obtain ⟨hc, hname⟩ := List.forall_mem_cons.mp hname
      obtain ⟨last, hlast⟩ := ih hname hc (index + 1)
      have hnone : countAt? layout
          ⟨index, some previous, ⟨c, .code⟩ :: (codeRow name ++ behind)⟩ = none := by
        simp [countAt?, Site.continuesPath, hprevious]
      refine ⟨last, ?_⟩
      change (Site.mk index (some previous) (⟨c, .code⟩ :: (codeRow name ++ behind)) ::
        sitesFrom (index + 1) (some c) (codeRow name ++ behind)).filterMap _ = _
      rw [List.filterMap_cons_none hnone, hlast, List.length_cons, Nat.add_right_comm, Nat.add_assoc]

end

/-! ## Where clauses stand -/

/-- The place of a clause among others: its number, where it starts, and whether the clause before
it makes columns. -/
structure Spot where
  number : Nat
  offset : Nat
  makes : Bool

namespace Spot

def first : Spot := ⟨0, 0, false⟩

/-- Where the edits for clauses from a place on start: before the pipe if the flag goes there. -/
def floor (spot : Spot) : Nat := if spot.makes then spot.offset - 3 else spot.offset

def past (spot : Spot) (clause : Clause) : Spot :=
  ⟨spot.number + 1, spot.offset + clause.text.length + 3, clause.verb == "make_col"⟩

def behind (front : List Clause) : Spot := front.foldl past first

@[simp] theorem behind_concat (front : List Clause) (clause : Clause) :
    behind (front ++ [clause]) = (behind front).past clause := by
  simp [behind]

theorem number_behind (front : List Clause) : (behind front).number = front.length := by
  induction front using List.reverseRecOn with
  | nil => rfl
  | append_singleton front clause ih => simp [past, ih]

theorem offset_le_foldl (spot : Spot) (clauses : List Clause) :
    spot.offset ≤ (clauses.foldl past spot).offset := by
  induction clauses generalizing spot with
  | nil => exact Nat.le_refl _
  | cons clause clauses ih =>
      have hpast := ih (spot.past clause)
      simp only [past, List.foldl_cons] at hpast ⊢
      omega

end Spot

theorem spans_cons (offset : Nat) (clause : Clause) (clauses : List Clause) :
    Stage.spans List.length offset (Clause.stages (clause :: clauses)) =
      ⟨offset, offset + clause.text.length⟩ ::
        Stage.spans List.length (offset + clause.text.length + 3) (Clause.stages clauses) := by
  have hlength : clause.row.length = clause.text.length := by
    rw [← Clause.text_row, Query.text, List.length_map]
  cases clauses with
  | nil => simp [Clause.stages, Stage.spans, hlength]
  | cons next clauses => simp [Clause.stages, Stage.spans, hlength, gapRow]

theorem spans_append (spot : Spot) (front : List Clause) (clause : Clause) (back : List Clause) :
    ∃ before after, Stage.spans List.length spot.offset (Clause.stages (front ++ clause :: back)) =
        before ++ ⟨(front.foldl .past spot).offset,
          (front.foldl .past spot).offset + clause.text.length⟩ :: after ∧
      before.length = front.length ∧
        ∀ span ∈ before, span.stop ≤ (front.foldl .past spot).offset := by
  induction front generalizing spot with
  | nil => exact ⟨[], _, spans_cons spot.offset clause back, rfl, by simp⟩
  | cons other front ih =>
      obtain ⟨before, after, hspans, hlength, hstop⟩ := ih (spot.past other)
      have hfirst := (spot.past other).offset_le_foldl front
      refine ⟨⟨spot.offset, spot.offset + other.text.length⟩ :: before, after, ?_, by simp [hlength],
        ?_⟩
      · rw [List.cons_append, spans_cons, List.cons_append, List.foldl_cons, ← hspans]
        rfl
      · intro span hspan
        rcases List.mem_cons.mp hspan with rfl | hspan
        · simp only [Spot.past, List.foldl_cons] at hfirst ⊢
          omega
        · exact hstop span hspan

section

variable (front : List Clause) (clause : Clause) (back : List Clause)

theorem getElem?_spans :
    (Layout.spans List.length ⟨[], Clause.stages (front ++ clause :: back)⟩)[front.length]? =
      some ⟨(Spot.behind front).offset, (Spot.behind front).offset + clause.text.length⟩ := by
  obtain ⟨before, after, hspans, hlength, -⟩ := spans_append .first front clause back
  rw [Layout.spans, ← hlength]
  change (Stage.spans List.length Spot.first.offset _)[_]? = _
  rw [hspans]
  simp [Spot.behind]

theorem getElem?_stages :
    ∃ gap, (Clause.stages (front ++ clause :: back))[front.length]? = some ⟨clause.row, gap⟩ := by
  have hbody : ((Clause.stages (front ++ clause :: back))[front.length]?).map Stage.body =
      some clause.row := by
    rw [← List.getElem?_map, Clause.map_body_stages]
    simp
  obtain ⟨⟨row, gap⟩, hstage, rfl⟩ := Option.map_eq_some_iff.mp hbody
  exact ⟨gap, hstage⟩

theorem aggregation?_clause (hverb : aggregationVerbs.contains clause.verb = true) {n : Nat}
    (hn : n < clause.text.length) :
    aggregation? ⟨[], Clause.stages (front ++ clause :: back)⟩ ((Spot.behind front).offset + n) =
      some front.length := by
  obtain ⟨before, after, hspans, hlength, hstop⟩ := spans_append .first front clause back
  obtain ⟨gap, hstage⟩ := getElem?_stages front clause back
  have hfind : (Layout.spans List.length ⟨[], Clause.stages (front ++ clause :: back)⟩).findIdx?
      (·.contains ((Spot.behind front).offset + n)) = some front.length := by
    have hbefore : before.findIdx? (·.contains ((Spot.behind front).offset + n)) = none := by
      refine List.findIdx?_eq_none_iff.mpr fun span hspan => ?_
      have hspan := hstop span hspan
      rw [← Spot.behind] at hspan
      simp only [Span.contains, Bool.and_eq_false_iff, decide_eq_false_iff_not]
      omega
    rw [Layout.spans]
    change (Stage.spans List.length Spot.first.offset _).findIdx? _ = _
    rw [hspans, List.findIdx?_append, hbefore, List.findIdx?_cons, if_pos]
    · simp [hlength]
    · simp [Span.contains, Spot.behind, hn]
  rw [aggregation?, hfind, Option.filter_some, if_pos]
  rw [hstage, Option.bind_some, Clause.verb?_row]
  exact hverb

end

/-! ## Counts and the edits for them -/

def countAt (spot : Spot) (field : FieldName) : Count :=
  ⟨spot.number, ⟨spot.offset + 8, spot.offset + (Clause.mistake (.countIf field)).text.length⟩,
    field.text, "code >= 500".toList⟩

def deriveAt (spot : Spot) (field : FieldName) : Edit :=
  ⟨⟨spot.floor, spot.floor⟩,
    if spot.makes then ", ".toList ++ (countAt spot field).derivation
    else "make_col ".toList ++ (countAt spot field).derivation ++ " | ".toList⟩

def findings : Spot → List Clause → List (Count × Edit)
  | _, [] => []
  | spot, clause :: clauses =>
    ((counted? clause).map fun field => (countAt spot field, deriveAt spot field)).toList ++
      findings (spot.past clause) clauses

theorem countHead?_field (field : FieldName) (rest : List Char) :
    countHead? (field.text ++ (":count_if(".toList ++ rest)) = some (field.text, rest) := by
  have hname := Lexeme.Named.name field
  have hbehind : ∀ c ∈ (":count_if(".toList ++ rest).head?, isNameChar c = false := by
    rintro c ⟨rfl⟩
    rfl
  obtain ⟨htake, hdrop⟩ := name_append hbehind field.text
  rw [List.takeWhile_eq_self_iff.mpr hname] at htake
  rw [List.dropWhile_eq_nil_iff.mpr hname, List.nil_append] at hdrop
  have hstart : isNameStart field.head = true := by
    simp [isNameStart, Char.isAlpha, field.head_mem]
  rw [countHead?, htake, hdrop, if_neg]
  · rfl
  · simp [Lexeme.text, hstart]

theorem countAt?_field (field : FieldName) {layout : Layout} {index stage : Nat}
    (hstage : aggregation? layout index = some stage) (behind : List Cell) :
    countAt? layout ⟨index, some ' ', codeRow field.text ++
        (codeRow ":count_if(code >= 500)".toList ++ behind)⟩ =
      some ⟨stage, ⟨index, index + field.text.length + 22⟩, field.text, "code >= 500".toList⟩ := by
  have hhead : countHead? (text (codeRow field.text ++
      (codeRow ":count_if(code >= 500)".toList ++ behind))) =
        some (field.text, "code >= 500)".toList ++ text behind) := by
    rw [← countHead?_field]
    simp
  have hsize : (codeRow field.text ++ (codeRow ":count_if(code >= 500)".toList ++ behind)).length -
      ("code >= 500)".toList ++ text behind).length = field.text.length + 10 := by
    simp [codeRow, Query.text]
    omega
  have hdrop : (codeRow field.text ++ (codeRow ":count_if(code >= 500)".toList ++ behind)).drop
      (field.text.length + 10) = codeRow "code >= 500)".toList ++ behind := by
    rw [List.drop_append, List.drop_of_length_le (by simp [codeRow])]
    simp [codeRow]
  have hclosing : closingParen? 0 (codeRow "code >= 500)".toList ++ behind) = some 11 := rfl
  have hcondition : trim (text ((codeRow "code >= 500)".toList ++ behind).take 11)) =
      "code >= 500".toList := rfl
  rw [countAt?, if_neg]
  · simp only [hhead, hstage, hsize, hdrop, hclosing, hcondition, Option.bind_some]
    simp [Nat.add_assoc]
  · exact Bool.false_ne_true

theorem countless_verb (field : FieldName) (behind : List Char) :
    Countless "statsby ".toList (field.text ++ behind) := by
  have hcolon : ':' ≠ field.head := fun h =>
    field.mark_notMem (show IsMark ':' from ⟨rfl, rfl, by decide⟩) (List.mem_cons.mpr (.inl h))
  have hskip : skipTo? ':' (' ' :: (field.text ++ behind)) = none := by
    have htrim : trimStart (' ' :: (field.text ++ behind)) = field.text ++ behind :=
      field.trimStart_append behind
    rw [skipTo?, htrim]
    exact if_neg hcolon.symm
  intro n hn
  replace hn : n < 8 := hn
  interval_cases n <;> exact countHead?_eq_none hskip

theorem length_countIf (field : FieldName) :
    (Clause.mistake (.countIf field)).text.length = field.tail.length + 31 := by
  simp [Clause.text, Clause.parts, Clause.verb, Mistake.verb, Clause.arguments, Mistake.arguments,
    Part.text, Lexeme.text]

theorem countless_callee {behind : List Char} (hbehind : Fence behind) :
    Countless ":count_if(code >= 500)".toList behind := by
  have hcolon : Countless [':'] ("count_if(code >= 500)".toList ++ behind) := by
    intro n hn
    obtain rfl : n = 0 := by simpa using hn
    rfl
  exact hcolon.append (countless_of_no_colon (by decide) hbehind)

theorem filterMap_countIf (field : FieldName) {layout : Layout} {index stage : Nat}
    (hstage : aggregation? layout (index + 8) = some stage) (previous : Option Char)
    {behind : List Cell} (hbehind : Fence (text behind)) :
    ∃ last, (sitesFrom index previous ((Clause.mistake (.countIf field)).row ++ behind)).filterMap
        (countAt? layout) =
      ⟨stage, ⟨index + 8, index + (Clause.mistake (.countIf field)).text.length⟩, field.text,
          "code >= 500".toList⟩ ::
        (sitesFrom (index + (Clause.mistake (.countIf field)).text.length) last behind).filterMap
          (countAt? layout) := by
  have hname := Lexeme.Named.name field
  have hrow : (Clause.mistake (.countIf field)).row ++ behind = codeRow "statsby ".toList ++
      (codeRow field.text ++ (codeRow ":count_if(code >= 500)".toList ++ behind)) := by
    simp [Clause.row, Clause.parts, Clause.verb, Mistake.verb, Clause.arguments, Mistake.arguments,
      Part.row]
  -- Nothing is found in the verb, one count at the name, and nothing behind its first letter.
  have hverb : Countless (text (codeRow "statsby ".toList))
      (text (codeRow field.text ++ (codeRow ":count_if(code >= 500)".toList ++ behind))) := by
    simpa using countless_verb field _
  have htail : ∀ c ∈ field.tail, isNameChar c = true := fun c hc =>
    hname c (List.mem_cons_of_mem _ hc)
  have hcallee : Countless (text (codeRow ":count_if(code >= 500)".toList)) (text behind) := by
    rw [text_codeRow]
    exact countless_callee hbehind
  have hfound := countAt?_field field hstage behind
  obtain ⟨last, hrest⟩ := filterMap_name layout htail (hname field.head List.mem_cons_self)
    (index + 9) (codeRow ":count_if(code >= 500)".toList ++ behind)
  have hindex : index + 9 + field.tail.length + (codeRow ":count_if(code >= 500)".toList).length =
      index + (Clause.mistake (.countIf field)).text.length := by
    rw [length_countIf]
    change index + 9 + field.tail.length + 22 = _
    omega
  rw [filterMap_of_countless layout hcallee, hindex] at hrest
  rw [hrow, filterMap_of_countless layout hverb]
  refine ⟨some ')', (List.filterMap_cons_some hfound).trans (congrArg₂ List.cons ?_ ?_)⟩
  · rw [length_countIf, Lexeme.text, List.length_cons]
    congr 2
    omega
  · exact hrest

theorem filterMap_clause (front : List Clause) (clause : Clause) (back : List Clause)
    (previous : Option Char) {behind : List Cell} (hbehind : Fence (text behind)) :
    ∃ last, (sitesFrom (Spot.behind front).offset previous (clause.row ++ behind)).filterMap
        (countAt? ⟨[], Clause.stages (front ++ clause :: back)⟩) =
      ((counted? clause).map (countAt (Spot.behind front))).toList ++
        (sitesFrom ((Spot.behind front).offset + clause.text.length) last behind).filterMap
          (countAt? ⟨[], Clause.stages (front ++ clause :: back)⟩) := by
  cases hcounted : counted? clause with
  | none =>
      have hlength : clause.row.length = clause.text.length := by
        rw [← Clause.text_row, Query.text, List.length_map]
      have hcountless : Countless (text clause.row) (text behind) := by
        rw [Clause.text_row]
        exact countless_clause hcounted hbehind
      rw [← hlength]
      exact ⟨_, filterMap_of_countless _ hcountless _ previous⟩
  | some field =>
      obtain rfl := eq_countIf_of_counted? hcounted
      have hverb : aggregationVerbs.contains (Clause.mistake (.countIf field)).verb = true := rfl
      have hstage := aggregation?_clause front _ back hverb (n := 8) (by rw [length_countIf]; omega)
      obtain ⟨last, hlast⟩ := filterMap_countIf field hstage previous hbehind
      refine ⟨last, ?_⟩
      rw [hlast, ← Spot.number_behind]
      rfl

theorem counts_append (front back : List Clause) (previous : Option Char) :
    (sitesFrom (Spot.behind front).offset previous (Clause.renderRow back)).filterMap
        (countAt? ⟨[], Clause.stages (front ++ back)⟩) =
      (findings (Spot.behind front) back).map Prod.fst := by
  -- The layout is that of all clauses throughout, so the front grows by each clause that is done.
  induction back generalizing front previous with
  | nil => rfl
  | cons clause back ih =>
      have hown : (((counted? clause).map fun field =>
          (countAt (Spot.behind front) field, deriveAt (Spot.behind front) field)).toList).map
            Prod.fst = ((counted? clause).map (countAt (Spot.behind front))).toList := by
        cases counted? clause <;> rfl
      rw [findings, List.map_append, hown]
      cases back with
      | nil =>
          obtain ⟨last, hlast⟩ := @filterMap_clause front clause [] previous [] (.inl rfl)
          rw [Clause.renderRow_singleton, ← List.append_nil clause.row, hlast]
          rfl
      | cons next back =>
          obtain ⟨last, hlast⟩ := filterMap_clause front clause (next :: back) previous
            (Patch.fence_gapRow (Clause.renderRow (next :: back)))
          have hgap : Countless (text gapRow) (text (Clause.renderRow (next :: back))) := by
            intro n hn
            replace hn : n < 3 := hn
            interval_cases n <;> rfl
          have hrest := ih (front ++ [clause]) (some ' ')
          rw [Spot.behind_concat, List.append_assoc, List.singleton_append] at hrest
          rw [Clause.renderRow_cons_cons, List.append_assoc, hlast, filterMap_of_countless _ hgap,
            ← hrest]
          rfl

theorem counts_render (clauses : List Clause) :
    counts (cells (Clause.render clauses)) ⟨[], Clause.stages clauses⟩ =
      (findings .first clauses).map Prod.fst := by
  rw [counts, Clause.cells_render]
  exact counts_append [] clauses none

theorem findings_append (spot : Spot) (front back : List Clause) :
    findings spot (front ++ back) =
      findings spot front ++ findings (front.foldl Spot.past spot) back := by
  induction front generalizing spot with
  | nil => rfl
  | cons clause front ih => simp [findings, ih]

theorem stage_of_mem_findings {spot : Spot} {clauses : List Clause} {finding : Count × Edit}
    (h : finding ∈ findings spot clauses) :
    spot.number ≤ finding.1.stage ∧ finding.1.stage < spot.number + clauses.length := by
  induction clauses generalizing spot with
  | nil => simp [findings] at h
  | cons clause clauses ih =>
      rcases List.mem_append.mp h with h | h
      · obtain ⟨field, -, rfl⟩ := Option.map_eq_some_iff.mp (Option.mem_toList.mp h)
        simp [countAt]
      · have hrest := ih h
        simp only [Spot.past, List.length_cons] at hrest ⊢
        omega

theorem filter_stage (front : List Clause) (clause : Clause) (back : List Clause) :
    ((findings .first (front ++ clause :: back)).map Prod.fst).filter (·.stage == front.length) =
      ((counted? clause).map (countAt (Spot.behind front))).toList := by
  have hnumber := Spot.number_behind front
  have hfront : ((findings .first front).map Prod.fst).filter (·.stage == front.length) = [] := by
    refine List.filter_eq_nil_iff.mpr fun count hcount => ?_
    obtain ⟨finding, hfinding, rfl⟩ := List.mem_map.mp hcount
    have hstage := (stage_of_mem_findings hfinding).2
    simp only [Spot.first, Nat.zero_add] at hstage
    simp [Nat.ne_of_lt hstage]
  have hback : ((findings ((Spot.behind front).past clause) back).map Prod.fst).filter
      (·.stage == front.length) = [] := by
    refine List.filter_eq_nil_iff.mpr fun count hcount => ?_
    obtain ⟨finding, hfinding, rfl⟩ := List.mem_map.mp hcount
    have hstage := (stage_of_mem_findings hfinding).1
    simp only [Spot.past, hnumber] at hstage
    simp only [beq_iff_eq]
    omega
  rw [findings_append, List.map_append, List.filter_append, hfront, List.nil_append, findings,
    List.map_append, List.filter_append, ← Spot.behind, hback, List.append_nil]
  cases counted? clause with
  | none => rfl
  | some field => simp [countAt, hnumber]

theorem makes_behind (front : List Clause) (clause : Clause) (back : List Clause) :
    (front.length != 0 && ((Clause.stages (front ++ clause :: back))[front.length - 1]?).any
      (·.hasVerb "make_col")) = (Spot.behind front).makes := by
  cases front using List.reverseRecOn with
  | nil => rfl
  | append_singleton front last =>
      obtain ⟨gap, hstage⟩ := getElem?_stages front last (clause :: back)
      rw [Spot.behind_concat, List.append_assoc, List.singleton_append, List.length_append,
        List.length_singleton, Nat.add_sub_cancel, hstage, Option.any_some, Stage.hasVerb,
        Clause.verb?_row]
      simp [Spot.past]

theorem stop_before (front : List Clause) (clause : Clause) (back : List Clause)
    (h : front ≠ []) : ∃ start, (Layout.spans List.length
      ⟨[], Clause.stages (front ++ clause :: back)⟩)[front.length - 1]? =
        some ⟨start, (Spot.behind front).offset - 3⟩ := by
  cases front using List.reverseRecOn with
  | nil => exact absurd rfl h
  | append_singleton front last =>
      have hspan := getElem?_spans front last (clause :: back)
      rw [Spot.behind_concat, List.append_assoc, List.singleton_append, List.length_append,
        List.length_singleton, Nat.add_sub_cancel, hspan]
      exact ⟨_, rfl⟩

theorem derive?_clause (front : List Clause) (clause : Clause) (back : List Clause) :
    derive? ⟨[], Clause.stages (front ++ clause :: back)⟩
        ((findings .first (front ++ clause :: back)).map Prod.fst) front.length =
      (counted? clause).map (deriveAt (Spot.behind front)) := by
  rw [derive?, filter_stage]
  cases counted? clause with
  | none => rfl
  | some field =>
      have hone : List.intercalate ", ".toList [(countAt (Spot.behind front) field).derivation] =
          (countAt (Spot.behind front) field).derivation := by
        simp [List.intercalate]
      simp only [Option.map_some, Option.toList_some, List.map_cons, List.map_nil, hone,
        makes_behind, List.isEmpty_cons, Bool.false_eq_true, if_false]
      rw [deriveAt, Spot.floor]
      cases hmakes : (Spot.behind front).makes with
      | false => simp [getElem?_spans]
      | true =>
          have hfront : front ≠ [] := by
            rintro rfl
            simp [Spot.behind, Spot.first] at hmakes
          obtain ⟨start, hspan⟩ := stop_before front clause back hfront
          simp [hspan]

theorem derive?_append (front back : List Clause) :
    (List.range' front.length back.length).filterMap
        (derive? ⟨[], Clause.stages (front ++ back)⟩
          ((findings .first (front ++ back)).map Prod.fst)) =
      (findings (Spot.behind front) back).map Prod.snd := by
  induction back generalizing front with
  | nil => rfl
  | cons clause back ih =>
      have hrest := ih (front ++ [clause])
      rw [Spot.behind_concat, List.append_assoc, List.singleton_append, List.length_append,
        List.length_singleton] at hrest
      rw [findings, List.map_append, ← hrest, List.length_cons, List.range'_succ, List.filterMap_cons,
        derive?_clause]
      cases counted? clause <;> rfl

end FlagCount

end OpalRepair
