import Mathlib
import OpalRepair.Proofs.Clause.Count
import OpalRepair.Proofs.Splice

/-!
# Flags instead of counts

The edits for the counts of clauses, sorted and applied, give clauses again.
-/

namespace OpalRepair

open Query Text Vocabulary

namespace FlagCount

def merged (spot : Spot) (clauses : List Clause) : List Edit :=
  (findings spot clauses).flatMap fun finding => [finding.2, finding.1.edit]

theorem edits_perm (clauses : List Clause) :
    (edits ⟨[], Clause.stages clauses⟩ ((findings .first clauses).map Prod.fst)).Perm
      (merged .first clauses) := by
  have hderive := derive?_append [] clauses
  have hsums : (findings .first clauses).map (fun finding => finding.1.edit) =
      (findings .first clauses).flatMap fun finding => [finding.1.edit] :=
    List.map_eq_flatMap
  rw [edits, Clause.length_stages, List.range_eq_range', List.map_map]
  change ((findings .first clauses).map (fun finding => finding.1.edit) ++
    (List.range' ([] : List Clause).length clauses.length).filterMap
      (derive? ⟨[], Clause.stages ([] ++ clauses)⟩ ((findings .first ([] ++ clauses)).map _))).Perm _
  rw [hderive, hsums]
  exact List.perm_append_comm.trans (List.map_append_flatMap_perm _ _ _)

theorem merged_of_none {clause : Clause} (h : counted? clause = none) (spot : Spot)
    (clauses : List Clause) :
    merged spot (clause :: clauses) = merged (spot.past clause) clauses := by
  rw [merged, findings, h]
  rfl

theorem merged_countIf (spot : Spot) (field : FieldName) (clauses : List Clause) :
    merged spot (.mistake (.countIf field) :: clauses) =
      deriveAt spot field :: (countAt spot field).edit ::
        merged (spot.past (.mistake (.countIf field))) clauses := rfl

theorem Spot.offset_le_floor_past (spot : Spot) (clause : Clause) :
    spot.offset + clause.text.length ≤ (spot.past clause).floor := by
  cases h : clause.verb == "make_col" <;> simp [floor, past, h]

theorem Spot.floor_le_offset (spot : Spot) : spot.floor ≤ spot.offset := by
  rw [floor]
  split <;> omega

theorem start_of_mem_merged {spot : Spot} {clauses : List Clause} {edit : Edit}
    (h : edit ∈ merged spot clauses) :
    spot.floor ≤ edit.span.start ∧ edit.span.start ≤ edit.span.stop := by
  induction clauses generalizing spot with
  | nil => simp [merged, findings] at h
  | cons clause clauses ih =>
      have hfloor := spot.floor_le_offset
      have hpast := spot.offset_le_floor_past clause
      cases hcounted : counted? clause with
      | none =>
          rw [merged_of_none hcounted] at h
          have hrest := ih h
          omega
      | some field =>
          obtain rfl := eq_countIf_of_counted? hcounted
          have hlength := length_countIf field
          rw [merged_countIf] at h
          simp only [List.mem_cons] at h
          rcases h with rfl | rfl | h
          · exact ⟨Nat.le_refl _, Nat.le_refl _⟩
          · simp only [Count.edit, countAt]
            omega
          · have hrest := ih h
            omega

theorem pairwise_merged (spot : Spot) (clauses : List Clause) :
    (merged spot clauses).Pairwise fun a b => a.span.start < b.span.start := by
  induction clauses generalizing spot with
  | nil => exact .nil
  | cons clause clauses ih =>
      cases hcounted : counted? clause with
      | none =>
          rw [merged_of_none hcounted]
          exact ih _
      | some field =>
          obtain rfl := eq_countIf_of_counted? hcounted
          have hfloor := spot.floor_le_offset
          have hpast := spot.offset_le_floor_past (.mistake (.countIf field))
          rw [length_countIf] at hpast
          have hrest : ∀ edit ∈ merged (spot.past (.mistake (.countIf field))) clauses,
              spot.offset + 8 < edit.span.start := fun edit hedit => by
            have hstart := (start_of_mem_merged hedit).1
            omega
          rw [merged_countIf]
          refine .cons ?_ (.cons hrest (ih _))
          intro edit hedit
          rcases List.mem_cons.mp hedit with rfl | hedit
          · simp only [deriveAt, Count.edit, countAt]
            omega
          · have hstart := hrest edit hedit
            simp only [deriveAt]
            omega

theorem sort_edits (clauses : List Clause) :
    Edit.sort (edits ⟨[], Clause.stages clauses⟩ ((findings .first clauses).map Prod.fst)) =
      merged .first clauses :=
  Edit.sort_eq_of_perm (edits_perm clauses)
    ((pairwise_merged .first clauses).imp Edit.ordered_of_start_lt)

/-! ## The text that the edits make -/

def mendClauses : List Clause → List Clause
  | .clean (.measures measured) :: .mistake (.countIf field) :: clauses =>
    .mended (.measuresAndFlags measured field) :: .mended (.sumsFlags field) :: mendClauses clauses
  | .mistake (.countIf field) :: clauses =>
    .mended (.flags field) :: .mended (.sumsFlags field) :: mendClauses clauses
  | clause :: clauses => clause :: mendClauses clauses
  | [] => []

end FlagCount

namespace Clause

def Unflagged (clause : Clause) : Prop :=
  clause.verb = "make_col" → ∃ measured, clause = .clean (.measures measured)

def trail (clauses : List Clause) : List Char :=
  clauses.flatMap fun clause => " | ".toList ++ clause.text

theorem render_cons (clause : Clause) (clauses : List Clause) :
    render (clause :: clauses) = clause.text ++ trail clauses := by
  induction clauses generalizing clause with
  | nil => simp [trail]
  | cons next clauses ih =>
      rw [render_cons_cons, ih next]
      simp [trail]

theorem trail_eq {clauses : List Clause} (h : clauses ≠ []) :
    trail clauses = " | ".toList ++ render clauses := by
  obtain ⟨clause, clauses, rfl⟩ := List.exists_cons_of_ne_nil h
  rw [render_cons, trail, List.flatMap_cons, List.append_assoc, trail]

end Clause

namespace FlagCount

theorem mendClauses_ne_nil {clauses : List Clause} (h : clauses ≠ []) : mendClauses clauses ≠ [] := by
  fun_cases mendClauses clauses <;> simp_all

theorem applyFrom_trail {clauses : List Clause}
    (h : ∀ number offset, Edit.applyFrom offset (Clause.render clauses)
      (merged ⟨number, offset, false⟩ clauses) = Clause.render (mendClauses clauses))
    (number offset : Nat) :
    Edit.applyFrom offset (Clause.trail clauses) (merged ⟨number, offset + 3, false⟩ clauses) =
      Clause.trail (mendClauses clauses) := by
  by_cases hclauses : clauses = []
  · subst hclauses
    rfl
  · rw [Clause.trail_eq hclauses, Clause.trail_eq (mendClauses_ne_nil hclauses), Edit.applyFrom_skip]
    · exact congrArg _ (h number (offset + 3))
    · exact fun edit hedit => start_of_mem_merged hedit

theorem merged_makes {clauses : List Clause} (h : (clauses.head?.bind counted?) = none)
    (number offset : Nat) (makes : Bool) :
    merged ⟨number, offset, makes⟩ clauses = merged ⟨number, offset, false⟩ clauses := by
  cases clauses with
  | nil => rfl
  | cons clause clauses =>
      rw [merged_of_none h, merged_of_none h]
      rfl

theorem text_countIf (field : FieldName) : (Clause.mistake (.countIf field)).text =
    "statsby ".toList ++ (field.text ++ ":count_if(code >= 500)".toList) := by
  simp [Clause.text, Clause.parts, Clause.verb, Mistake.verb, Clause.arguments, Mistake.arguments,
    Part.text]

theorem text_sumsFlags (spot : Spot) (field : FieldName) : (Clause.mended (.sumsFlags field)).text =
    "statsby ".toList ++ (countAt spot field).sum := by
  simp [Clause.text, Clause.parts, Clause.verb, Mended.verb, Clause.arguments, Mended.arguments,
    Part.text, Count.sum, Count.flag, countAt]

theorem text_flags (spot : Spot) (field : FieldName) : (Clause.mended (.flags field)).text =
    "make_col ".toList ++ (countAt spot field).derivation := by
  simp [Clause.text, Clause.parts, Clause.verb, Mended.verb, Clause.arguments, Mended.arguments,
    Part.text, Count.derivation, Count.flag, countAt]

theorem text_measuresAndFlags (spot : Spot) (measured field : FieldName) :
    (Clause.mended (.measuresAndFlags measured field)).text =
      (Clause.clean (.measures measured)).text ++ (", ".toList ++ (countAt spot field).derivation) := by
  simp [Clause.text, Clause.parts, Clause.verb, Mended.verb, Clean.verb, Clause.arguments,
    Mended.arguments, Clean.arguments, Part.text, Count.derivation, Count.flag, countAt]

theorem applyFrom_sum (spot : Spot) (field : FieldName) {cursor : Nat} {kept : List Char}
    (hcursor : cursor + kept.length = spot.offset) (rest : List Char) (edits : List Edit) :
    Edit.applyFrom cursor (kept ++ ((Clause.mistake (.countIf field)).text ++ rest))
        ((countAt spot field).edit :: edits) =
      kept ++ ((Clause.mended (.sumsFlags field)).text ++
        Edit.applyFrom (spot.offset + (Clause.mistake (.countIf field)).text.length) rest edits) := by
  have hstart : cursor + (kept ++ "statsby ".toList).length = spot.offset + 8 := by
    rw [List.length_append, ← Nat.add_assoc, hcursor]
    rfl
  have hstop : spot.offset + 8 + (field.text ++ ":count_if(code >= 500)".toList).length =
      spot.offset + (Clause.mistake (.countIf field)).text.length := by
    simp only [text_countIf, List.length_append, ← Nat.add_assoc]
    rfl
  have hsum := Edit.applyFrom_edit cursor (kept ++ "statsby ".toList)
    (field.text ++ ":count_if(code >= 500)".toList) rest (countAt spot field).sum edits
  rw [hstart, hstop] at hsum
  have htext : kept ++ ((Clause.mistake (.countIf field)).text ++ rest) =
      kept ++ "statsby ".toList ++ (field.text ++ ":count_if(code >= 500)".toList ++ rest) := by
    simp only [text_countIf, List.append_assoc]
  rw [htext]
  refine hsum.trans ?_
  simp only [text_sumsFlags spot, List.append_assoc]

theorem applyFrom_merged {clauses : List Clause} (h : ∀ clause ∈ clauses, clause.Unflagged)
    (number offset : Nat) :
    Edit.applyFrom offset (Clause.render clauses) (merged ⟨number, offset, false⟩ clauses) =
      Clause.render (mendClauses clauses) := by
  fun_induction mendClauses clauses generalizing number offset with
  | case1 measured field clauses ih =>
      -- The flag joins the columns before the pipe, and the sum replaces the count behind it.
      obtain ⟨spot, hspot⟩ : ∃ spot, spot =
        Spot.past ⟨number, offset, false⟩ (.clean (.measures measured)) := ⟨_, rfl⟩
      have hcursor : offset + (Clause.clean (.measures measured)).text.length + " | ".toList.length =
          spot.offset := by
        rw [hspot]
        rfl
      have htrail := applyFrom_trail (ih fun clause hclause => h clause (by simp [hclause]))
        (spot.number + 1) (spot.offset + (Clause.mistake (.countIf field)).text.length)
      have hderive : merged spot (.mistake (.countIf field) :: clauses) =
          ⟨⟨offset + (Clause.clean (.measures measured)).text.length,
              offset + (Clause.clean (.measures measured)).text.length⟩,
              ", ".toList ++ (countAt spot field).derivation⟩ ::
            (countAt spot field).edit ::
              merged (spot.past (.mistake (.countIf field))) clauses := by
        rw [merged_countIf, hspot]
        rfl
      rw [merged_of_none rfl, ← hspot, hderive, Clause.render_cons, Clause.render_cons,
        Clause.trail_eq (by simp), Clause.render_cons, Edit.applyFrom_insert,
        applyFrom_sum spot field hcursor, show spot.past (.mistake (.countIf field)) =
          ⟨spot.number + 1, _, false⟩ from rfl, htrail, text_measuresAndFlags spot]
      simp [Clause.trail]
  | case2 field clauses ih =>
      have htrail := applyFrom_trail (ih fun clause hclause => h clause (by simp [hclause]))
        (number + 1) (offset + (Clause.mistake (.countIf field)).text.length)
      have hsum := @applyFrom_sum ⟨number, offset, false⟩ field offset [] rfl (Clause.trail clauses)
        (merged (Spot.past ⟨number, offset, false⟩ (.mistake (.countIf field))) clauses)
      rw [Clause.render_cons, Clause.render_cons, merged_countIf]
      refine (Edit.applyFrom_insert offset [] _ _ _).trans ?_
      refine (congrArg (_ ++ ·) hsum).trans ?_
      rw [show Spot.past ⟨number, offset, false⟩ (.mistake (.countIf field)) =
        ⟨number + 1, _, false⟩ from rfl, htrail, text_flags ⟨number, offset, false⟩]
      simp [Clause.trail]
  | case3 clause clauses hmeasures hcount ih =>
      have hcounted : counted? clause = none := by
        cases hcounted : counted? clause with
        | none => rfl
        | some field => exact absurd (eq_countIf_of_counted? hcounted) (hcount field)
      -- A column of lengths is not followed by a count here, so it does not matter to the rest.
      have hmakes : merged (Spot.past ⟨number, offset, false⟩ clause) clauses =
          merged ⟨number + 1, offset + clause.text.length + 3, false⟩ clauses := by
        by_cases hverb : clause.verb = "make_col"
        · obtain ⟨measured, rfl⟩ := h clause (by simp) hverb
          refine merged_makes ?_ _ _ _
          refine Option.bind_eq_none_iff.mpr fun next hnext => ?_
          obtain ⟨rest, rfl⟩ := List.head?_eq_some_iff.mp hnext
          cases hcounted : counted? next with
          | none => rfl
          | some field =>
              obtain rfl := eq_countIf_of_counted? hcounted
              exact absurd rfl (hmeasures measured field rest rfl)
        · rw [Spot.past, beq_false_of_ne hverb]
      have htrail := applyFrom_trail (ih fun clause hclause => h clause (by simp [hclause]))
        (number + 1) (offset + clause.text.length)
      rw [Clause.render_cons, Clause.render_cons, merged_of_none hcounted, Edit.applyFrom_skip,
        hmakes, htrail]
      intro edit hedit
      have hstart := start_of_mem_merged hedit
      have hpast := Spot.offset_le_floor_past ⟨number, offset, false⟩ clause
      exact ⟨hpast.trans hstart.1, hstart.2⟩
  | case4 => rfl

theorem counted?_mendClauses (clauses : List Clause) :
    ∀ clause ∈ mendClauses clauses, counted? clause = none := by
  fun_induction mendClauses clauses with
  | case1 measured field clauses ih => simpa [counted?] using ih
  | case2 field clauses ih => simpa [counted?] using ih
  | case3 clause clauses hmeasures hcount ih =>
      refine List.forall_mem_cons.mpr ⟨?_, ih⟩
      cases hcounted : counted? clause with
      | none => rfl
      | some field => exact absurd (eq_countIf_of_counted? hcounted) (hcount field)
  | case4 => simp

theorem findings_eq_nil {clauses : List Clause} (h : ∀ clause ∈ clauses, counted? clause = none)
    (spot : Spot) : findings spot clauses = [] := by
  induction clauses generalizing spot with
  | nil => rfl
  | cons clause clauses ih =>
      rw [findings, h clause (by simp), ih fun other hother => h other (by simp [hother])]
      rfl

theorem apply_render (clauses : List Clause) :
    apply (String.ofList (Clause.render clauses)) =
      .ofChanges
        (String.ofList (Edit.applyFrom 0 (Clause.render clauses) (merged .first clauses)))
        "count_if" (((findings .first clauses).map Prod.fst).map (change (Clause.render clauses)))
        rationale := by
  have hlayout : Layout.ofCells (cells (Clause.render clauses)) = ⟨[], Clause.stages clauses⟩ :=
    Clause.layout_render clauses
  simp only [apply, String.toList_ofList, hlayout, counts_render, Edit.splice, sort_edits]

end FlagCount

theorem flagCount_turns (context : Context) {clauses : List Clause}
    (h : ∀ clause ∈ clauses, clause.Unflagged) :
    flagCount.Turns context clauses (FlagCount.mendClauses clauses) := by
  have happly := FlagCount.apply_render clauses
  rw [show FlagCount.Spot.first = ⟨0, 0, false⟩ from rfl, FlagCount.applyFrom_merged h] at happly
  refine Pass.turns_of_changes happly (fun hchanges => ?_) fun hsame => ?_
  · have hfindings : FlagCount.findings ⟨0, 0, false⟩ clauses = [] := by simpa using hchanges
    rw [← FlagCount.applyFrom_merged h 0 0, FlagCount.merged, hfindings]
    rfl
  · have hcounted := FlagCount.counted?_mendClauses clauses
    rw [hsame] at hcounted
    rw [FlagCount.findings_eq_nil hcounted]
    rfl

theorem flagCount_turns_self (context : Context) {clauses : List Clause}
    (h : ∀ clause ∈ clauses, FlagCount.counted? clause = none) :
    flagCount.Turns context clauses clauses := by
  have happly := FlagCount.apply_render clauses
  rw [FlagCount.merged, FlagCount.findings_eq_nil h] at happly
  exact Pass.turns_of_changes happly (fun _ => rfl) fun _ => rfl

end OpalRepair
