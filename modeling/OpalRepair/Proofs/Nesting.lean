import Mathlib
import OpalRepair.Proofs.Bytes.Check

/-!
# Depth as the worst segment

The counter of open pairs passes over a closing delimiter that nothing opened, so it forgets how
much was closed too often.  The deepest nesting it reports is the most that any part of the code
leaves open, wherever that part starts.

Main statement: `nestingDepth_worst_segment`.
-/

namespace OpalRepair.Bytes

open Query

def leftOpen (segment : List (Nat × Char)) : Int :=
  segment.countP (opensPair ·.2) - segment.countP (closesPair ·.2)

def rise (c : Char) : Int :=
  (if opensPair c then 1 else 0) - (if closesPair c then 1 else 0)

@[simp] theorem leftOpen_nil : leftOpen [] = 0 := rfl

theorem leftOpen_cons (entry : Nat × Char) (segment : List (Nat × Char)) :
    leftOpen (entry :: segment) = rise entry.2 + leftOpen segment := by
  simp only [leftOpen, rise, List.countP_cons]
  push_cast
  ring

theorem leftOpen_append (a b : List (Nat × Char)) :
    leftOpen (a ++ b) = leftOpen a + leftOpen b := by
  simp only [leftOpen, List.countP_append]
  push_cast
  ring

theorem closesPair_of_opensPair {c : Char} (h : opensPair c = true) : closesPair c = false := by
  simp only [opensPair, Pair.all, List.any_cons, List.any_nil, Bool.or_false, Bool.or_eq_true,
    beq_iff_eq, Pair.left] at h
  rcases h with rfl | rfl | rfl <;> decide

/-! ## One byte -/

theorem exists_nestingOf_cons (depth : Nat) (entry : Nat × Char) (code : List (Nat × Char)) :
    ∃ next : Nat, (next : Int) = max 0 (depth + rise entry.2) ∧
      nestingOf depth (entry :: code) = max depth (nestingOf next code) := by
  refine ⟨_, ?_, rfl⟩
  cases hopens : opensPair entry.2 with
  | true =>
      simp [rise, hopens, closesPair_of_opensPair hopens]
      omega
  | false =>
      cases hcloses : closesPair entry.2 with
      | true =>
          simp [rise, hopens, hcloses]
          omega
      | false => simp [rise, hopens, hcloses]

/-! ## Whole runs -/

theorem le_nestingOf_of_prefix {front code : List (Nat × Char)} (h : front <+: code) (depth : Nat) :
    depth + leftOpen front ≤ nestingOf depth code := by
  induction code generalizing front depth with
  | nil =>
      obtain rfl := List.prefix_nil.mp h
      simp [nestingOf]
  | cons entry code ih =>
      obtain ⟨next, hnext, hnesting⟩ := exists_nestingOf_cons depth entry code
      rw [hnesting]
      rcases List.prefix_cons_iff.mp h with rfl | ⟨front, rfl, hfront⟩
      · simp
      · have hrest := ih hfront next
        rw [leftOpen_cons]
        omega

theorem le_nestingOf_of_infix {segment code : List (Nat × Char)} (h : segment <:+: code)
    (depth : Nat) : leftOpen segment ≤ nestingOf depth code := by
  induction code generalizing depth with
  | nil =>
      obtain rfl := List.infix_nil.mp h
      simp
  | cons entry code ih =>
      rcases List.infix_cons_iff.mp h with hprefix | hinfix
      · have hle := le_nestingOf_of_prefix hprefix depth
        omega
      · obtain ⟨next, -, hnesting⟩ := exists_nestingOf_cons depth entry code
        have hle := ih hinfix next
        omega

/-- The deepest nesting is reached behind some part of the code: one that starts with the pairs that
were open before, or one that starts where the counter was at zero. -/
theorem exists_leftOpen_eq (depth : Nat) (code : List (Nat × Char)) :
    (∃ front, front <+: code ∧ depth + leftOpen front = nestingOf depth code) ∨
      ∃ segment, segment <:+: code ∧ leftOpen segment = nestingOf depth code := by
  induction code generalizing depth with
  | nil => exact .inl ⟨[], List.prefix_rfl, by simp [nestingOf]⟩
  | cons entry code ih =>
      obtain ⟨next, hnext, hnesting⟩ := exists_nestingOf_cons depth entry code
      rw [hnesting]
      rcases Nat.le_total (nestingOf next code) depth with hle | hle
      · exact .inl ⟨[], List.nil_prefix, by simp [hle]⟩
      rw [Nat.max_eq_right hle]
      rcases ih next with ⟨front, hfront, hopen⟩ | ⟨segment, hsegment, hopen⟩
      · rcases Int.lt_or_le (depth + rise entry.2) 0 with hbelow | habove
        · -- The counter stops at zero, so what is left open starts behind this byte.
          refine .inr ⟨front, List.infix_cons hfront.isInfix, ?_⟩
          omega
        · refine .inl ⟨entry :: front, List.cons_prefix_cons.mpr ⟨rfl, hfront⟩, ?_⟩
          rw [leftOpen_cons]
          omega
      · exact .inr ⟨segment, List.infix_cons hsegment, hopen⟩

/-- The depth of nesting is the greatest number of delimiters that a part of the code, the bytes
outside literals, opens and does not close.  In code that never closes more than it has opened it is
the greatest number of pairs that are open at one place. -/
theorem nestingDepth_worst_segment (query : List Char) :
    IsGreatest {n | ∃ segment, segment <:+: codeOf query (view query) ∧ leftOpen segment = n}
        (nestingDepth (cells query) : Int) ∧
      ((∀ front, front <+: codeOf query (view query) → 0 ≤ leftOpen front) →
        IsGreatest {n | ∃ front, front <+: codeOf query (view query) ∧ leftOpen front = n}
          (nestingDepth (cells query) : Int)) := by
  rw [← nestingOf_codeOf]
  generalize codeOf query (view query) = code
  obtain ⟨segment, hsegment, hopen⟩ : ∃ segment, segment <:+: code ∧
      leftOpen segment = nestingOf 0 code := by
    rcases exists_leftOpen_eq 0 code with ⟨front, hfront, hopen⟩ | hsegment
    · exact ⟨front, hfront.isInfix, by simpa using hopen⟩
    · exact hsegment
  refine ⟨⟨⟨segment, hsegment, hopen⟩, ?_⟩, fun hfronts => ⟨?_, ?_⟩⟩
  · rintro n ⟨other, hother, rfl⟩
    exact le_nestingOf_of_infix hother 0
  · -- What precedes the worst segment leaves nothing closed, so the two together are as bad.
    obtain ⟨before, after, hcode⟩ := hsegment
    have hfront : before ++ segment <+: code := ⟨after, hcode⟩
    have hbefore := hfronts before ((List.prefix_append before segment).trans hfront)
    have hle := le_nestingOf_of_prefix hfront 0
    refine ⟨before ++ segment, hfront, ?_⟩
    rw [leftOpen_append] at hle ⊢
    omega
  · rintro n ⟨front, hfront, rfl⟩
    exact le_nestingOf_of_infix hfront.isInfix 0

/-- Delimiters in a string do not count, and what is closed too often is not made up for later. -/
theorem nestingDepth_worst_segment_literal :
    let nested := "filter f(é[g(1)], \"((((\")".toList
    let unopened := "filter a)) = ((b".toList
    IsGreatest {n | ∃ front, front <+: codeOf nested (view nested) ∧ leftOpen front = n} 3 ∧
      IsGreatest {n | ∃ segment, segment <:+: codeOf unopened (view unopened) ∧
        leftOpen segment = n} 2 ∧
      leftOpen (codeOf unopened (view unopened)) = 0 := by
  intro nested unopened
  have hfronts : ∀ front ∈ (codeOf nested (view nested)).inits, 0 ≤ leftOpen front := by
    decide
  have hnested : nestingDepth (cells nested) = 3 := by decide
  have hunopened : nestingDepth (cells unopened) = 2 := by decide
  have hworst := (nestingDepth_worst_segment nested).2 fun front hfront =>
    hfronts front ((List.mem_inits _ _).mpr hfront)
  have hworst' := (nestingDepth_worst_segment unopened).1
  rw [hnested] at hworst
  rw [hunopened] at hworst'
  exact ⟨hworst, hworst', by decide⟩

end OpalRepair.Bytes
