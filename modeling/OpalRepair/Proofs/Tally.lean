import Mathlib
import OpalRepair.Report.Tally

/-!
# Adding up tallies

A tally is summed up report by report.  Tallies of two lists add up to the tally of both, the order
of the reports does not matter, and the counters bound each other, so that no rate leaves a part
without a whole.

Main statement: `ofReports_aggregates`.
-/

namespace OpalRepair

attribute [ext] Tally

/-- The exact value of a rate; nothing out of nothing is zero. -/
def Rate.value (rate : Rate) : ℚ :=
  if rate.whole = 0 then 0 else rate.part / rate.whole

def Rate.divided? (rate : Rate) : Option ℚ :=
  if rate.whole = 0 then none else some (rate.part / rate.whole)

namespace Tally

def counters : List (Tally → Nat) :=
  [total, valid, invalid, fixed, fixedValid, transformations]

def rates : List (Tally → Rate) :=
  [averageTransformations, fixRate, validRate]

/-! ## What is counted -/

def counted (reports : List Report) : Tally where
  total := reports.length
  valid := reports.countP Report.isValid
  invalid := reports.countP (!·.isValid)
  fixed := reports.countP Report.wasTransformed
  fixedValid := reports.countP fun report => report.wasTransformed && report.isValid
  transformations := (reports.map (·.transformations.length)).sum

@[simp] theorem ofReports_nil : ofReports [] = {} := rfl

@[simp] theorem ofReports_cons (report : Report) (reports : List Report) :
    ofReports (report :: reports) = (ofReport report).add (ofReports reports) := rfl

theorem counted_cons (report : Report) (reports : List Report) :
    counted (report :: reports) = (ofReport report).add (counted reports) := by
  ext <;>
    simp [counted, ofReport, add, List.countP_cons, Bool.toNat, Nat.add_comm, Bool.cond_eq_ite]

theorem ofReports_eq_counted (reports : List Report) : ofReports reports = counted reports := by
  induction reports with
  | nil => rfl
  | cons report reports ih => rw [ofReports_cons, ih, counted_cons]

theorem ofReports_append (xs ys : List Report) :
    ofReports (xs ++ ys) = (ofReports xs).add (ofReports ys) := by
  simp only [ofReports_eq_counted]
  ext <;> simp [counted, add]

theorem ofReports_perm {xs ys : List Report} (h : xs.Perm ys) : ofReports xs = ofReports ys := by
  simp only [ofReports_eq_counted]
  ext
  · exact h.length_eq
  · exact h.countP_eq _
  · exact h.countP_eq _
  · exact h.countP_eq _
  · exact h.countP_eq _
  · exact (h.map _).sum_eq

/-! ## How the counters bound each other -/

structure Consistent (tally : Tally) : Prop where
  verdicts : tally.valid + tally.invalid = tally.total
  fixedValid_le_fixed : tally.fixedValid ≤ tally.fixed
  fixed_le_total : tally.fixed ≤ tally.total
  fixedValid_le_valid : tally.fixedValid ≤ tally.valid

theorem Consistent.nil : Consistent {} := by
  constructor <;> simp

theorem Consistent.cons {tally : Tally} (h : tally.Consistent) (report : Report) :
    ((ofReport report).add tally).Consistent := by
  obtain ⟨hverdicts, hfixed, htotal, hvalid⟩ := h
  cases hreport : report.isValid <;> cases htransformed : report.wasTransformed <;>
    constructor <;> simp [ofReport, add, hreport, htransformed] <;> omega

theorem consistent_ofReports (reports : List Report) : (ofReports reports).Consistent := by
  induction reports with
  | nil => exact .nil
  | cons report reports ih => exact ih.cons report

/-! ## Rates -/

def fixDivided? (tally : Tally) : Option ℚ :=
  if 0 < tally.fixed then tally.fixRate.divided? else some 0

/-- The three rates of reports; without reports nothing is divided. -/
def dividedRates? (reports : List Report) : Option (List ℚ) :=
  let tally := ofReports reports
  if reports.isEmpty then some [0, 0, 0]
  else do
    let average ← tally.averageTransformations.divided?
    let fix ← tally.fixDivided?
    let valid ← tally.validRate.divided?
    some [average, fix, valid]

theorem divided?_eq {rate : Rate} (h : 0 < rate.whole) : rate.divided? = some rate.value := by
  rw [Rate.divided?, Rate.value, if_neg (by omega), if_neg (by omega)]

theorem value_of_whole_eq_zero {rate : Rate} (h : rate.whole = 0) : rate.value = 0 := if_pos h

theorem value_mem_unit {rate : Rate} (h : rate.part ≤ rate.whole) :
    rate.value ∈ Set.Icc (0 : ℚ) 1 := by
  rw [Rate.value]
  split
  · simp
  · rename_i hwhole
    have hpos : (0 : ℚ) < rate.whole := by exact_mod_cast Nat.pos_of_ne_zero hwhole
    exact ⟨by positivity, (div_le_one hpos).mpr (by exact_mod_cast h)⟩

theorem fixDivided?_eq (tally : Tally) : tally.fixDivided? = some tally.fixRate.value := by
  rw [fixDivided?]
  split
  · rename_i hfixed
    exact divided?_eq hfixed
  · rename_i hfixed
    rw [value_of_whole_eq_zero (Nat.eq_zero_of_not_pos hfixed)]

theorem dividedRates?_eq (reports : List Report) :
    dividedRates? reports = some (rates.map fun rate => (rate (ofReports reports)).value) := by
  cases reports with
  | nil =>
      simp [dividedRates?, rates, value_of_whole_eq_zero, averageTransformations, fixRate,
        validRate]
  | cons report reports =>
      have htotal : 0 < (ofReports (report :: reports)).total := by
        rw [ofReports_eq_counted]
        simp [counted]
      have haverage : (ofReports (report :: reports)).averageTransformations.divided? = some _ :=
        divided?_eq htotal
      have hvalid : (ofReports (report :: reports)).validRate.divided? = some _ :=
        divided?_eq htotal
      rw [dividedRates?, fixDivided?_eq, haverage, hvalid]
      rfl

/-! ## All together -/

/-- The counters count what they say, those of two lists add up, and neither they nor the rates
depend on the order of the reports.  Every query is either valid or not, repaired queries are
queries, and those of them that are valid are among the valid ones; so the rates are quotients that
exist, and the shares lie between zero and one. -/
theorem ofReports_aggregates (xs ys : List Report) :
    ofReports xs = counted xs ∧
      (∀ counter ∈ counters,
        counter (ofReports (xs ++ ys)) = counter (ofReports xs) + counter (ofReports ys)) ∧
      (xs.Perm ys → ofReports xs = ofReports ys ∧ dividedRates? xs = dividedRates? ys) ∧
      (ofReports xs).Consistent ∧
      dividedRates? xs = some (rates.map fun rate => (rate (ofReports xs)).value) ∧
      (ofReports xs).fixRate.value ∈ Set.Icc (0 : ℚ) 1 ∧
      (ofReports xs).validRate.value ∈ Set.Icc (0 : ℚ) 1 := by
  have hconsistent := consistent_ofReports xs
  have hvalid : (ofReports xs).valid ≤ (ofReports xs).total :=
    hconsistent.verdicts ▸ Nat.le_add_right _ _
  refine ⟨ofReports_eq_counted xs, ?_, fun hperm => ?_, hconsistent, dividedRates?_eq xs,
    value_mem_unit hconsistent.fixedValid_le_fixed, value_mem_unit hvalid⟩
  · rw [ofReports_append]
    simp [counters, add]
  · rw [dividedRates?_eq, dividedRates?_eq, ofReports_perm hperm]
    exact ⟨rfl, rfl⟩

/-- A repaired query that is valid, a repaired one that is not, and one left as it was. -/
theorem ofReports_aggregates_three :
    let fixed : Report := ⟨true, some "sort desc(a)", ["fix"], none⟩
    let refused : Report := ⟨false, some "q", ["fix", "fix"], some "bad"⟩
    let kept : Report := ⟨true, none, [], none⟩
    ofReports [refused, kept, fixed] = ⟨3, 2, 1, 2, 1, 3⟩ ∧
      dividedRates? [refused, kept, fixed] = some [1, 1 / 2, 2 / 3] := by
  intro fixed refused kept
  have hperm : [fixed, refused, kept].Perm [refused, kept, fixed] :=
    @List.perm_append_comm _ [fixed] [refused, kept]
  obtain ⟨hcounted, -, hsame, -, hrates, -, -⟩ :=
    ofReports_aggregates [fixed, refused, kept] [refused, kept, fixed]
  obtain ⟨htally, hdivided⟩ := hsame hperm
  have hthree : counted [fixed, refused, kept] = ⟨3, 2, 1, 2, 1, 3⟩ := by decide
  rw [← htally, ← hdivided, hrates, hcounted, hthree]
  norm_num [rates, Rate.value, averageTransformations, fixRate, validRate]

end Tally

end OpalRepair
