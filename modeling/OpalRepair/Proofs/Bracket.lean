import Mathlib
import OpalRepair.Query.Bracket

/-!
# Brackets, cell by cell

How the depth of nesting and the search for a closing parenthesis go on from cell to cell.
-/

namespace OpalRepair.Query

open Text

/-! ## Depth -/

def depthBehind (depth : Nat) (cell : Cell) : Nat :=
  if cell.opens then depth + 1 else if cell.closes then depth - 1 else depth

def depthAfter (depth : Nat) (row : List Cell) : Nat := row.foldl depthBehind depth

@[simp] theorem depthAfter_nil (depth : Nat) : depthAfter depth [] = depth := rfl

@[simp] theorem depthAfter_cons (depth : Nat) (cell : Cell) (row : List Cell) :
    depthAfter depth (cell :: row) = depthAfter (depthBehind depth cell) row := rfl

theorem depthAfter_append (depth : Nat) (a b : List Cell) :
    depthAfter depth (a ++ b) = depthAfter (depthAfter depth a) b := List.foldl_append

theorem nestingFrom_cons (depth : Nat) (cell : Cell) (row : List Cell) :
    nestingFrom depth (cell :: row) = max depth (nestingFrom (depthBehind depth cell) row) := rfl

theorem le_nestingFrom (depth : Nat) (row : List Cell) : depth ≤ nestingFrom depth row := by
  cases row with
  | nil => exact Nat.le_refl _
  | cons cell row => exact Nat.le_max_left _ _

theorem nestingFrom_append (depth : Nat) (a b : List Cell) :
    nestingFrom depth (a ++ b) =
      max (nestingFrom depth a) (nestingFrom (depthAfter depth a) b) := by
  induction a generalizing depth with
  | nil => exact (Nat.max_eq_right (le_nestingFrom depth b)).symm
  | cons cell a ih =>
      rw [List.cons_append, nestingFrom_cons, nestingFrom_cons, ih, depthAfter_cons, Nat.max_assoc]

theorem nesting_of_flat {row : List Cell}
    (hrow : ∀ cell ∈ row, cell.opens = false ∧ cell.closes = false) (depth : Nat) :
    depthAfter depth row = depth ∧ nestingFrom depth row = depth := by
  induction row with
  | nil => exact ⟨rfl, rfl⟩
  | cons cell row ih =>
      obtain ⟨hopens, hcloses⟩ := hrow cell List.mem_cons_self
      have hcell : depthBehind depth cell = depth := by simp [depthBehind, hopens, hcloses]
      obtain ⟨hafter, hnesting⟩ := ih fun x hx => hrow x (List.mem_cons_of_mem _ hx)
      rw [depthAfter_cons, nestingFrom_cons, hcell, hafter, hnesting, Nat.max_self]
      exact ⟨rfl, rfl⟩

theorem closes_of_opens {cell : Cell} (h : cell.opens = true) : cell.closes = false := by
  have hchars : cell.char = '(' ∨ cell.char = '[' ∨ cell.char = '\x7b' := by
    simp [Cell.opens, Pair.all, Cell.isCode, Pair.left] at h
    tauto
  rcases hchars with hchar | hchar | hchar <;>
    simp [Cell.closes, Pair.all, Cell.isCode, Pair.right, hchar]

theorem depthAfter_of_prefixes (depth : Nat) {row : List Cell}
    (hrow : ∀ front, front <+: row → front.countP Cell.closes ≤ depth + front.countP Cell.opens) :
    depthAfter depth row + row.countP Cell.closes = depth + row.countP Cell.opens := by
  induction row generalizing depth with
  | nil => simp
  | cons cell row ih =>
      have hfront (front : List Cell) (h : front <+: row) :=
        hrow (cell :: front) (List.cons_prefix_cons.mpr ⟨rfl, h⟩)
      simp only [List.countP_cons] at hfront
      have hstep : depthBehind depth cell + (if cell.closes then 1 else 0) =
          depth + (if cell.opens then 1 else 0) := by
        have hfirst := hfront [] List.nil_prefix
        cases hopens : cell.opens with
        | true => simp [depthBehind, hopens, closes_of_opens hopens]
        | false =>
            cases hcloses : cell.closes with
            | true =>
                simp [hopens, hcloses] at hfirst
                simp [depthBehind, hopens, hcloses]
                omega
            | false => simp [depthBehind, hopens, hcloses]
      have hrest := ih (depthBehind depth cell) fun front h => by
        have := hfront front h
        omega
      rw [depthAfter_cons, List.countP_cons, List.countP_cons]
      omega

theorem countP_sides {side : Pair → Char} (hside : side.Injective) (row : List Cell) :
    row.countP (fun cell => Pair.all.any fun pair => cell.isCode (side pair)) =
      (Pair.all.map fun pair => row.countP (Cell.isCode (side pair))).sum := by
  induction row with
  | nil => rfl
  | cons cell row ih =>
      have hcell : (if Pair.all.any fun pair => cell.isCode (side pair) then 1 else 0) =
          (Pair.all.map fun pair => if cell.isCode (side pair) then 1 else 0).sum := by
        by_cases h : ∃ pair, cell.isCode (side pair) = true
        · obtain ⟨pair, hpair⟩ := h
          -- A cell is one character, so it is the side of one pair only.
          have honly (other : Pair) : cell.isCode (side other) = decide (other = pair) := by
            obtain ⟨hchar, hcode⟩ : cell.char = side pair ∧ cell.isLiteral = false := by
              simpa [Cell.isCode] using hpair
            rw [Bool.eq_iff_iff, Cell.isCode, hchar, hcode]
            simpa [hside.eq_iff] using eq_comm
          simp only [honly]
          cases pair <;> rfl
        · push Not at h
          simp [h]
      rw [List.countP_cons, ih, hcell]
      simp only [Pair.all, List.map_cons, List.map_nil, List.sum_cons, List.sum_nil,
        List.countP_cons]
      omega

theorem countP_closes_eq {row : List Cell}
    (h : ∀ pair : Pair, row.countP (Cell.isCode pair.left) = row.countP (Cell.isCode pair.right)) :
    row.countP Cell.closes = row.countP Cell.opens := by
  have hleft : Pair.left.Injective := by rintro (_ | _ | _) (_ | _ | _) <;> simp [Pair.left]
  have hright : Pair.right.Injective := by rintro (_ | _ | _) (_ | _ | _) <;> simp [Pair.right]
  calc row.countP Cell.closes
      = (Pair.all.map fun pair => row.countP (Cell.isCode pair.right)).sum :=
        countP_sides hright row
    _ = (Pair.all.map fun pair => row.countP (Cell.isCode pair.left)).sum := by simp only [h]
    _ = row.countP Cell.opens := (countP_sides hleft row).symm

/-! ## Closing parentheses -/

section Closing

variable {cell : Cell} {row : List Cell}

theorem closingParen?_left (hcell : cell.isCode '(' = true) (inner : Nat) :
    closingParen? inner (cell :: row) = (closingParen? (inner + 1) row).map (· + 1) := by
  cases inner <;> simp [closingParen?, hcell]

theorem not_isCode_left (hcell : cell.isCode ')' = true) : cell.isCode '(' = false := by
  simp_all [Cell.isCode]

theorem closingParen?_right_zero (hcell : cell.isCode ')' = true) :
    closingParen? 0 (cell :: row) = some 0 := by
  simp [closingParen?, hcell, not_isCode_left hcell]

theorem closingParen?_right_succ (hcell : cell.isCode ')' = true) (inner : Nat) :
    closingParen? (inner + 1) (cell :: row) = (closingParen? inner row).map (· + 1) := by
  simp [closingParen?, hcell, not_isCode_left hcell]

theorem closingParen?_other (hleft : cell.isCode '(' = false) (hright : cell.isCode ')' = false)
    (inner : Nat) : closingParen? inner (cell :: row) = (closingParen? inner row).map (· + 1) := by
  cases inner <;> simp [closingParen?, hleft, hright]

theorem closingParen?_append_iff {inner n : Nat} (behind : List Cell) (hn : n < row.length) :
    closingParen? inner (row ++ behind) = some n ↔ closingParen? inner row = some n := by
  induction row generalizing inner n with
  | nil => simp at hn
  | cons first row ih =>
      have hstep (inner : Nat) :
          (closingParen? inner (row ++ behind)).map (· + 1) = some n ↔
            (closingParen? inner row).map (· + 1) = some n := by
        cases n with
        | zero => simp
        | succ n => simpa using ih (Nat.lt_of_succ_lt_succ hn)
      rw [List.cons_append]
      cases hleft : first.isCode '(' with
      | true => rw [closingParen?_left hleft, closingParen?_left hleft, hstep]
      | false =>
          cases hright : first.isCode ')' with
          | false =>
              rw [closingParen?_other hleft hright, closingParen?_other hleft hright, hstep]
          | true =>
              cases inner with
              | zero => rw [closingParen?_right_zero hright, closingParen?_right_zero hright]
              | succ inner =>
                  rw [closingParen?_right_succ hright, closingParen?_right_succ hright, hstep]

theorem closingParen?_eq {inner n : Nat} (h : closingParen? inner row = some n) :
    ∃ inside cell after, row = inside ++ cell :: after ∧ inside.length = n ∧
      cell.isCode ')' = true ∧
      inside.countP (Cell.isCode ')') = inner + inside.countP (Cell.isCode '(') := by
  induction row generalizing inner n with
  | nil => simp [closingParen?] at h
  | cons first row ih =>
      cases hleft : first.isCode '(' with
      | true =>
          rw [closingParen?_left hleft] at h
          obtain ⟨m, hm, rfl⟩ := Option.map_eq_some_iff.mp h
          obtain ⟨inside, cell, after, rfl, rfl, hcell, hcount⟩ := ih hm
          have hright : first.isCode ')' = false := by simp_all [Cell.isCode]
          refine ⟨first :: inside, cell, after, rfl, rfl, hcell, ?_⟩
          simp [hleft, hright, hcount]
          omega
      | false =>
          cases hright : first.isCode ')' with
          | false =>
              rw [closingParen?_other hleft hright] at h
              obtain ⟨m, hm, rfl⟩ := Option.map_eq_some_iff.mp h
              obtain ⟨inside, cell, after, rfl, rfl, hcell, hcount⟩ := ih hm
              exact ⟨first :: inside, cell, after, rfl, rfl, hcell,
                by simp [hleft, hright, hcount]⟩
          | true =>
              cases inner with
              | zero =>
                  rw [closingParen?_right_zero hright] at h
                  exact ⟨[], first, row, rfl, Option.some.inj h, hright, rfl⟩
              | succ inner =>
                  rw [closingParen?_right_succ hright] at h
                  obtain ⟨m, hm, rfl⟩ := Option.map_eq_some_iff.mp h
                  obtain ⟨inside, cell, after, rfl, rfl, hcell, hcount⟩ := ih hm
                  refine ⟨first :: inside, cell, after, rfl, rfl, hcell, ?_⟩
                  simp [hleft, hright, hcount]
                  omega

theorem closingParen?_skip {part : List Cell}
    (hpart : ∀ cell ∈ part, cell.char ≠ '(' ∧ cell.char ≠ ')') (inner : Nat) :
    closingParen? inner (part ++ row) = (closingParen? inner row).map (· + part.length) := by
  induction part with
  | nil => simp
  | cons first part ih =>
      have hfirst := hpart first (by simp)
      rw [List.cons_append, closingParen?_other (by simp [Cell.isCode, hfirst])
        (by simp [Cell.isCode, hfirst]), ih fun x hx => hpart x (by simp [hx]), Option.map_map]
      rfl

theorem closingParen?_outer {inner n : Nat} (h : closingParen? inner row = some n) (outer : Nat) :
    closingParen? (inner + 1 + outer) row =
      (closingParen? outer (row.drop (n + 1))).map (· + (n + 1)) := by
  induction row generalizing inner n with
  | nil => simp [closingParen?] at h
  | cons first row ih =>
      have hmap {m : Nat} (found : Option Nat) :
          (found.map (· + (m + 1))).map (· + 1) = found.map (· + (m + 1 + 1)) := by
        rw [Option.map_map]
        rfl
      cases hleft : first.isCode '(' with
      | true =>
          rw [closingParen?_left hleft] at h ⊢
          obtain ⟨m, hm, rfl⟩ := Option.map_eq_some_iff.mp h
          rw [show inner + 1 + outer + 1 = inner + 1 + 1 + outer by omega, ih hm, hmap]
          rfl
      | false =>
          cases hright : first.isCode ')' with
          | false =>
              rw [closingParen?_other hleft hright] at h ⊢
              obtain ⟨m, hm, rfl⟩ := Option.map_eq_some_iff.mp h
              rw [ih hm, hmap]
              rfl
          | true =>
              cases inner with
              | zero =>
                  rw [closingParen?_right_zero hright] at h
                  obtain rfl := Option.some.inj h
                  rw [show 0 + 1 + outer = outer + 1 by omega, closingParen?_right_succ hright]
                  rfl
              | succ inner =>
                  rw [closingParen?_right_succ hright] at h
                  obtain ⟨m, hm, rfl⟩ := Option.map_eq_some_iff.mp h
                  rw [show inner + 1 + 1 + outer = (inner + 1 + outer) + 1 by omega,
                    closingParen?_right_succ hright, ih hm, hmap]
                  rfl

theorem closingParen?_past {inner n : Nat} {part : List Cell}
    (h : closingParen? inner (part ++ row) = some n) (hn : part.length ≤ n) :
    ∃ depth m, closingParen? depth row = some m ∧ n = part.length + m := by
  induction part generalizing inner n with
  | nil => exact ⟨inner, n, h, by simp⟩
  | cons first part ih =>
      have hnext {depth : Nat} (hfound : (closingParen? depth (part ++ row)).map (· + 1) = some n) :
          ∃ depth m, closingParen? depth row = some m ∧ n = (first :: part).length + m := by
        obtain ⟨k, hk, rfl⟩ := Option.map_eq_some_iff.mp hfound
        obtain ⟨depth, m, hm, rfl⟩ := ih hk (by simpa using hn)
        exact ⟨depth, m, hm, by simp; omega⟩
      rw [List.cons_append] at h
      cases hleft : first.isCode '(' with
      | true => exact hnext (by rwa [closingParen?_left hleft] at h)
      | false =>
          cases hright : first.isCode ')' with
          | false => exact hnext (by rwa [closingParen?_other hleft hright] at h)
          | true =>
              cases inner with
              | zero =>
                  rw [closingParen?_right_zero hright] at h
                  simp [← Option.some.inj h] at hn
              | succ inner => exact hnext (by rwa [closingParen?_right_succ hright] at h)

/-! ## Level rows -/

def Level (part : List Cell) : Prop :=
  ∀ inner row, closingParen? inner (part ++ row) =
    (closingParen? inner row).map (· + part.length)

theorem Level.nil : Level [] := fun _ _ => by simp

theorem Level.append {a b : List Cell} (ha : Level a) (hb : Level b) : Level (a ++ b) := by
  intro inner row
  rw [List.append_assoc, ha, hb, Option.map_map]
  congr 1
  funext n
  simp
  omega

theorem level_of_forall {part : List Cell} (h : ∀ cell ∈ part, cell.char ≠ '(' ∧ cell.char ≠ ')') :
    Level part :=
  fun inner _ => closingParen?_skip h inner

theorem level_of_closing_behind {inside spaces : List Cell}
    (hspaces : ∀ cell ∈ spaces, cell.char ≠ '(' ∧ cell.char ≠ ')')
    (h : closingParen? 0 (inside ++ (spaces ++ cell :: row)) =
      some (inside.length + spaces.length)) : Level inside := by
  have hdepth (inner : Nat) (part : List Cell)
      (hpart : closingParen? inner (part ++ (spaces ++ cell :: row)) =
        some (part.length + spaces.length)) (outer : Nat) (behind : List Cell) :
      closingParen? (inner + outer) (part ++ behind) =
        (closingParen? outer behind).map (· + part.length) := by
    induction part generalizing inner with
    | nil =>
        have hzero : inner = 0 := by
          cases inner with
          | zero => rfl
          | succ inner =>
              rw [List.nil_append, closingParen?_skip hspaces, Option.map_eq_some_iff] at hpart
              obtain ⟨n, hn, hlength⟩ := hpart
              obtain rfl : n = 0 := by simpa using hlength
              simp only [closingParen?] at hn
              split at hn
              · simp at hn
              · split at hn <;> simp at hn
        simp [hzero]
    | cons first part ih =>
        have hmap (found : Option Nat) : (found.map (· + part.length)).map (· + 1) =
            found.map (· + (first :: part).length) := by
          rw [Option.map_map]
          rfl
        have hshorter {depth : Nat}
            (hfound : (closingParen? depth (part ++ (spaces ++ cell :: row))).map (· + 1) =
              some ((first :: part).length + spaces.length)) :
            closingParen? depth (part ++ (spaces ++ cell :: row)) =
              some (part.length + spaces.length) := by
          rw [List.length_cons, Nat.add_right_comm] at hfound
          simpa using hfound
        rw [List.cons_append] at hpart ⊢
        cases hleft : first.isCode '(' with
        | true =>
            rw [closingParen?_left hleft] at hpart ⊢
            rw [Nat.add_right_comm, ih _ (hshorter hpart), hmap]
        | false =>
            cases hright : first.isCode ')' with
            | false =>
                rw [closingParen?_other hleft hright] at hpart ⊢
                rw [ih _ (hshorter hpart), hmap]
            | true =>
                cases inner with
                | zero =>
                    rw [closingParen?_right_zero hright] at hpart
                    simp at hpart
                    omega
                | succ inner =>
                    rw [closingParen?_right_succ hright] at hpart
                    rw [Nat.add_right_comm, closingParen?_right_succ hright,
                      ih _ (hshorter hpart), hmap]
  intro inner behind
  simpa using hdepth 0 inside h inner behind

theorem level_of_closing {inside : List Cell}
    (h : closingParen? 0 (inside ++ cell :: row) = some inside.length) : Level inside := by
  have hnone : ∀ cell ∈ ([] : List Cell), cell.char ≠ '(' ∧ cell.char ≠ ')' := by simp
  exact level_of_closing_behind hnone h

theorem Level.closing {inside : List Cell} (h : Level inside) (hcell : cell.isCode ')' = true)
    (row : List Cell) : closingParen? 0 (inside ++ cell :: row) = some inside.length := by
  rw [h, closingParen?_right_zero hcell]
  simp

theorem Level.paren {inside : List Cell} (h : Level inside) {left right : Cell}
    (hleft : left.isCode '(' = true) (hright : right.isCode ')' = true) :
    Level (left :: (inside ++ [right])) := by
  intro inner row
  rw [List.cons_append, List.append_assoc, closingParen?_left hleft, h, List.singleton_append,
    closingParen?_right_succ hright, Option.map_map, Option.map_map]
  congr 1
  funext n
  simp
  omega

end Closing

end OpalRepair.Query
