import Mathlib
import OpalRepair.Proofs.Dropping.Rejoin
import OpalRepair.Proofs.Sorting.Items
import OpalRepair.Proofs.Sorting.Key

/-!
# Reading mended keys

Each key of a list is read from the verb or from a comma on, before and after the list is mended.
The field path of a key that changes starts with a name, so it is read as before inside its call.
-/

namespace OpalRepair

open Query Text Scanner

/-! ## Cuts -/

namespace Query.Scanner

variable {s : Scanner} {a b : List Cell}

theorem paints_cut (hb : ∀ cell ∈ b.head?, isNameChar cell.char = false) :
    s.Paints (a ++ b) ↔ s.Paints a ∧ (s.finish (text a)).Paints b := by
  have hhead : ∀ c ∈ (text b).head?, isNameChar c = false := by
    intro c hc
    rw [text, List.head?_map, Option.mem_def, Option.map_eq_some_iff] at hc
    obtain ⟨cell, hcell, rfl⟩ := hc
    exact hb cell hcell
  rw [Paints, text_append, paint_cut s (text a) hhead]
  constructor
  · intro h
    exact List.append_inj h (by simpa [text] using congrArg List.length (text_paint s (text a)))
  · rintro ⟨ha, hb⟩
    rw [ha, hb]

theorem Settles.paints {part : List Char} {row : List Cell} {last : Option Char}
    (h : Settles part row last) (hs : s.mode = .code) (hb : (atCode last).Paints b) :
    s.Paints (row ++ b) := by
  have htext : part = text row := by simpa [paint] using congrArg text (h s hs [])
  rw [Paints, text_append, ← htext, h s hs, hb]

theorem Consumes.paints {t : Scanner} {part : List Char} {row : List Cell}
    (h : s.Consumes part row t) (hb : t.Paints b) : s.Paints (row ++ b) := by
  have htext : part = text row := by simpa [paint] using congrArg text (h []).1
  rw [Paints, text_append, ← htext, (h _).1, hb]

theorem finish_atCode_ne_flags (last : Option Char) (part : List Char) (more : Nat) :
    ((atCode last).finish part).mode ≠ .flags more :=
  finish_ne_flags (fun _ h => by simp [atCode] at h) more

theorem delimiter_mem_special (literal : Literal) : literal.delimiter ∈ special := by
  cases literal <;> decide

theorem mode_of_bland {c : Char} {part : List Char} (hflags : ∀ more, s.mode ≠ .flags more)
    (hc : isBlank c = true) (hpart : ∀ d ∈ part, d ∉ special) :
    (s.finish (c :: part)).mode = s.mode := by
  cases hs : s.mode with
  | flags more => exact absurd hs (hflags more)
  | code =>
      have hread := reads_code s.last fun d hd => plain_of_bland (hpart d hd)
      have hfinish := (hread []).2
      rw [List.append_nil] at hfinish
      rw [finish, step_blank hs hc, hfinish]
      rfl
  | inside literal =>
      rw [finish_eq_reach]
      refine mode_reach_inside hs (fun hmem => ?_) []
      have hbland : literal.delimiter ∉ special := by
        rcases List.mem_cons.mp hmem with hd | hd
        · exact hd ▸ bland_of_isBlank hc
        · exact hpart _ hd
      exact hbland (delimiter_mem_special literal)

end Query.Scanner

/-! ## Keys that change -/

namespace SortCall

theorem Spells.direction_cases {key direction field : List Char} (h : Spells key direction field) :
    direction = "asc".toList ∨ direction = "aſc".toList ∨ direction = "desc".toList ∨
      direction = "deſc".toList := by
  cases h with
  | minus => exact .inr (.inr (.inl rfl))
  | keyword hfield hne hblanks hkeyword => exact SortCall.direction_cases hkeyword

theorem Spells.field {key direction field : List Char} (h : Spells key direction field) :
    FieldPath field := by
  cases h with
  | minus hblanks hfield => exact hfield
  | keyword hfield => exact hfield

theorem bland_of_keyword {keyword : List Char}
    (h : keyword.map foldCase = "asc".toList ∨ keyword.map foldCase = "desc".toList) :
    ∀ c ∈ keyword, c ∉ special ∧ c ≠ ',' := by
  intro c hc
  have hletters : ∀ word ∈ ["asc".toList, "desc".toList],
      word.all ("adesc".toList.contains ·) = true := by
    simp only [List.forall_mem_cons]
    exact ⟨rfl, rfl, by simp⟩
  have hfold : "adesc".toList.contains (foldCase c) = true :=
    List.all_eq_true.mp (hletters (keyword.map foldCase) (by simpa using h)) _
      (List.mem_map_of_mem hc)
  refine ⟨bland_of_class (p := fun c => "adesc".toList.contains (foldCase c)) rfl hfold, ?_⟩
  rintro rfl
  exact absurd hfold (by decide)

theorem Spells.direction_bland {key direction field : List Char} (h : Spells key direction field) :
    ∀ c ∈ direction, c ∉ special ∧ c ≠ ',' := by
  have hbland : isBland direction = true ∧ ',' ∉ direction := by
    rcases h.direction_cases with rfl | rfl | rfl | rfl <;> exact ⟨rfl, by decide⟩
  exact fun c hc => ⟨bland_of_isBland hbland.1 c hc, fun hcomma => hbland.2 (hcomma ▸ hc)⟩

theorem Spells.direction_head {key direction field : List Char} (h : Spells key direction field) :
    ∃ c rest, direction = c :: rest ∧ isBlank c = false ∧ c ≠ '-' := by
  rcases h.direction_cases with rfl | rfl | rfl | rfl <;> exact ⟨_, _, rfl, rfl, by decide⟩

def callRow (direction : List Char) (row : List Cell) (close : Cell) : List Cell :=
  codeRow direction ++ ⟨'(', .code⟩ :: row ++ [close]

section Field

variable {last last' : Option Char} {item row : List Cell} {direction field : List Char}

theorem paints_field (hfield : FieldPath (text row)) (h : (atCode last).Paints row) :
    (atCode last').Paints row ∧
      (atCode last').finish (text row) = (atCode last).finish (text row) := by
  obtain ⟨c, rest, htext, hstart, -⟩ := hfield.head
  obtain ⟨cell, row, rfl, hchar, -⟩ := row_of_text_cons htext
  have hsolid : Solid cell.char := by
    rw [hchar]
    exact solid_of_isNameChar (isNameChar_of_isNameStart hstart)
  have hcode : cell.isLiteral = false := by
    have hrole := (paints_cons.mp h).1
    rw [step_solid rfl hsolid] at hrole
    rw [Cell.isLiteral, ← hrole]
    rfl
  obtain ⟨hfresh, hreach⟩ := h.fresh hcode hsolid (rfl : (atCode last').mode = .code)
  refine ⟨hfresh, ?_⟩
  rw [finish_eq_reach, finish_eq_reach]
  exact hreach _ _

theorem Spells.exists_row (h : Spells (text item) direction field)
    (hpaints : (atCode last).Paints item) :
    ∃ front row back, item = front ++ (row ++ back) ∧ text row = field ∧ (atCode last).Paints row ∧
      ((atCode last).finish (text item)).mode = ((atCode last).finish field).mode ∧
      (∀ cell ∈ front, cell.char = '-' ∨ isBlank cell.char = true) ∧
      ∀ cell ∈ front ++ back, cell.Inert := by
  generalize hkey : text item = key at h
  cases h with
  | @minus blanks field hblanks hfield =>
      obtain ⟨minus, behind, rfl, hminus, hbehind⟩ := row_of_text_cons hkey
      obtain ⟨spaces, row, rfl, rfl, rfl⟩ := row_of_text hbehind
      have hstep (rest : List Char) : (atCode last).step '-' rest = (.code, atCode (some '-')) :=
        step_solid rfl (by decide) rest
      have hnext := (paints_cons.mp hpaints).2
      rw [hminus, hstep, paints_append, reach_blanks hblanks] at hnext
      obtain ⟨hrow, hfinish⟩ :
          (atCode last).Paints row ∧ (atCode last).finish (text row) = _ :=
        paints_field hfield hnext.2
      refine ⟨minus :: spaces, row, [], by simp, rfl, hrow, ?_, ?_, ?_⟩
      · rw [finish, hstep, finish_append, reach_blanks hblanks, hfinish]
      · exact List.forall_mem_cons.mpr ⟨.inl hminus, fun cell hcell =>
          .inr (hblanks _ (List.mem_map_of_mem hcell))⟩
      · rw [List.append_nil, List.forall_mem_cons]
        refine ⟨inert_of_bland ?_ ?_, fun cell hcell => ?_⟩
        · rw [hminus]
          decide
        · rw [hminus]
          decide
        · exact inert_of_isBlank (hblanks _ (List.mem_map_of_mem hcell))
  | @keyword field blanks keyword hfield hne hblanks hkeyword =>
      obtain ⟨row, behind, rfl, rfl, hbehind⟩ := row_of_text hkey
      obtain ⟨spaces, letters, rfl, rfl, rfl⟩ := row_of_text hbehind
      obtain ⟨blank, spaces, rfl⟩ : ∃ blank more, spaces = blank :: more :=
        List.exists_cons_of_ne_nil (by rintro rfl; exact hne rfl)
      have hblank : isBlank blank.char = true := hblanks _ (by simp)
      have hbland : ∀ c ∈ text spaces ++ text letters, c ∉ special := by
        intro c hc
        rcases List.mem_append.mp hc with hc | hc
        · exact bland_of_isBlank (hblanks c (by simp [hc]))
        · exact (bland_of_keyword hkeyword c hc).1
      have hcut : ∀ cell ∈ (blank :: spaces ++ letters).head?, isNameChar cell.char = false := by
        simp [isNameChar_of_isBlank hblank]
      refine ⟨[], row, blank :: spaces ++ letters, rfl, rfl, ((paints_cut hcut).mp hpaints).1, ?_,
        by simp, ?_⟩
      · have hend : ((atCode last).finish
            (text row ++ (text (blank :: spaces) ++ text letters))).Alike _ :=
          finish_cut _ _ (by simp [isNameChar_of_isBlank hblank])
        rw [hend.mode, text_cons, List.cons_append]
        exact mode_of_bland (finish_atCode_ne_flags last _) hblank hbland
      · intro cell hcell
        rw [List.nil_append] at hcell
        rcases List.mem_append.mp hcell with hcell | hcell
        · exact inert_of_isBlank (hblanks _ (List.mem_map_of_mem hcell))
        · obtain ⟨hspecial, hcomma⟩ := bland_of_keyword hkeyword _ (List.mem_map_of_mem hcell)
          exact inert_of_bland hspecial hcomma

theorem exists_call (hdirection : ∀ c ∈ direction, c ∉ special) (hfield : FieldPath (text row))
    (h : (atCode last).Paints row) :
    ∃ close : Cell, close.char = ')' ∧ close.isSeparator = false ∧
      (((atCode last).finish (text row)).mode = .code → close.isLiteral = false) ∧
      (atCode last).Paints (callRow direction row close) ∧
      ((atCode last).finish (directed direction (text row))).mode =
        ((atCode last).finish (text row)).mode := by
  have hopen : ∀ c ∈ direction ++ ['('], Plain c ∧ c ≠ '|' := by
    intro c hc
    rcases List.mem_append.mp hc with hc | hc
    · exact plain_of_bland (hdirection c hc)
    · rw [List.mem_singleton.mp hc]
      decide
  have hread := reads_code last hopen
  rw [List.foldl_append] at hread
  change (atCode last).Consumes _ _ (atCode (some '(')) at hread
  obtain ⟨hrow, hfinish⟩ : (atCode (some '(')).Paints row ∧
      (atCode (some '(')).finish (text row) = (atCode last).finish (text row) :=
    paints_field hfield h
  set behind := (atCode last).finish (text row) with hbehind
  have hclose : ∃ role, role ≠ .separator ∧ (behind.mode = .code → role = .code) ∧
      ∃ next : Scanner, behind.step ')' [] = (role, next) ∧ next.mode = behind.mode := by
    cases hmode : behind.mode with
    | flags more => exact absurd hmode (finish_atCode_ne_flags last _ more)
    | code => exact ⟨.code, by simp, by simp, _, step_solid hmode (by decide) [], rfl⟩
    | inside literal =>
        obtain ⟨hrole, hnext⟩ := step_inside hmode (c := ')') (by cases literal <;> decide) []
        exact ⟨.content, by simp, by simp, _, Prod.ext hrole rfl, hnext⟩
  obtain ⟨role, hseparator, hcode, next, hstep, hnext⟩ := hclose
  refine ⟨⟨')', role⟩, rfl, by simpa [Cell.isSeparator] using hseparator, fun hmode => ?_, ?_, ?_⟩
  · rw [Cell.isLiteral, hcode hmode]
    rfl
  · have hcall : callRow direction row ⟨')', role⟩ =
        codeRow (direction ++ ['(']) ++ (row ++ [⟨')', role⟩]) := by
      simp [callRow, codeRow]
    rw [hcall]
    refine hread.paints ((paints_cut (by simp; decide)).mpr ⟨hrow, ?_⟩)
    rw [hfinish, paints_cons]
    exact ⟨by rw [text_nil, hstep], rfl⟩
  · rw [directed, List.append_assoc _ (text row), (hread _).2]
    have hend : ((atCode (some '(')).finish (text row ++ [')'])).Alike _ :=
      finish_cut _ _ (by simp; decide)
    rw [hend.mode, hfinish, finish, hstep, finish, hnext]

variable {close : Cell}

theorem bare_callRow (hdirection : ∃ c rest, direction = c :: rest ∧ isBlank c = false)
    (hclose : close.char = ')') : Bare (callRow direction row close) := by
  obtain ⟨c, rest, rfl, hc⟩ := hdirection
  refine ⟨⟨⟨c, .code⟩, rfl, hc⟩, close, by rw [callRow, List.getLast?_concat]; rfl, ?_⟩
  rw [hclose]
  decide

theorem inert_codeRow (h : ∀ c ∈ direction, c ∉ special ∧ c ≠ ',') :
    ∀ cell ∈ codeRow direction, cell.Inert := by
  intro cell hcell
  obtain ⟨c, hc, rfl⟩ := List.mem_map.mp hcell
  exact inert_of_bland (h c hc).1 (h c hc).2

theorem whole_callRow (hdirection : ∀ c ∈ direction, c ∉ special ∧ c ≠ ',') (hrow : Whole 1 row)
    (hclose : close.char = ')') : Whole 0 (callRow direction row close) := by
  have hinert := inert_codeRow hdirection
  have hshift : Cell.shift ⟨'(', .code⟩ = 1 := by decide
  rw [callRow, whole_append, whole_append, balance_of_inert hinert, whole_cons, hshift, add_zero,
    zero_add]
  refine ⟨⟨whole_of_inert hinert, by decide, hrow⟩, whole_cons.mpr ⟨?_, rfl⟩⟩
  simp [Cell.isCode, hclose]

theorem balance_callRow (hdirection : ∀ c ∈ direction, c ∉ special ∧ c ≠ ',')
    (hclose : close.char = ')') (hcode : close.isLiteral = false) :
    balance (callRow direction row close) = balance row := by
  have hopen : Cell.shift ⟨'(', .code⟩ = 1 := by decide
  have hshift : close.shift = -1 := by
    simp [Cell.shift, Cell.opens, Cell.closes, Cell.isCode, Pair.all, Pair.left, Pair.right, hclose,
      hcode]
  rw [callRow, balance_append, balance_append, balance_of_inert (inert_codeRow hdirection),
    balance_cons, balance_cons, balance_nil, hopen, hshift]
  omega

end Field

/-- A key that is read from `s` on stays, or the cells of its field path are put into a call. -/
inductive Respelled (s : Scanner) (item : List Cell) : List Cell → Prop where
  | kept : Respelled s item item
  | called {direction : List Char} {front field back : List Cell} {close : Cell}
      (hspells : Spells (text item) direction (text field))
      (hitem : item = front ++ (field ++ back))
      (hfront : ∀ cell ∈ front, cell.char = '-' ∨ isBlank cell.char = true)
      (hinert : ∀ cell ∈ front ++ back, cell.Inert) (hclose : close.char = ')')
      (hcode : (s.finish (text item)).mode = .code → close.isLiteral = false) :
      Respelled s item (callRow direction field close)

structure Rewritten (s : Scanner) (item row : List Cell) : Prop where
  cells : Respelled s item row
  mends : Mends (text item) (text row)
  paints : s.Paints row
  mode : (s.finish (text row)).mode = (s.finish (text item)).mode
  escaped : (s.finish (text row)).escaped = true → row = item
  bare : Bare row
  body : ∀ cell ∈ row, cell.isSeparator = false
  whole : Whole 0 item → (∀ direction field, Spells (text item) direction field → Whole 1 item) →
    Whole 0 row
  balance : (s.finish (text item)).mode = .code → balance row = balance item

theorem exists_rewritten {last : Option Char} {item : List Cell}
    (hpaints : (atCode last).Paints item) (hbare : Bare item)
    (hbody : ∀ cell ∈ item, cell.isSeparator = false) :
    ∃ row, Rewritten (atCode last) item row := by
  by_cases hspells : ∃ direction field, Spells (text item) direction field
  · obtain ⟨direction, field, hspells⟩ := hspells
    obtain ⟨front, row, back, rfl, rfl, hrow, hmode, hminus, hinert⟩ :=
      hspells.exists_row hpaints
    have hdirection := hspells.direction_bland
    obtain ⟨c, rest, hhead, hblank, -⟩ := hspells.direction_head
    obtain ⟨close, hclose, hseparator, hcode, hcall, hend⟩ :=
      exists_call (fun c hc => (hdirection c hc).1) hspells.field hrow
    have htext : text (callRow direction row close) = directed direction (text row) := by
      simp [callRow, directed, hclose]
    have hfront : ∀ cell ∈ front, cell.Inert := fun cell hcell => hinert cell (by simp [hcell])
    have hback : ∀ cell ∈ back, cell.Inert := fun cell hcell => hinert cell (by simp [hcell])
    refine ⟨callRow direction row close, .called hspells rfl hminus hinert hclose
      fun h => hcode (hmode ▸ h), ?_, hcall, ?_, ?_, bare_callRow ⟨c, rest, hhead, hblank⟩ hclose, ?_, ?_, ?_⟩
    · rw [htext]
      exact .directed hspells
    · rw [htext, hend, hmode]
    · -- What is written ends with a parenthesis.
      rw [htext]
      intro hescaped
      rw [finish_eq_reach] at hescaped
      have hlast := getLast?_of_escaped rfl (by simp [directed]) hescaped
      rw [directed, List.getLast?_concat] at hlast
      simp at hlast
    · intro cell hcell
      rw [callRow, List.mem_append, List.mem_append, List.mem_cons, List.mem_singleton] at hcell
      rcases hcell with (hcell | rfl | hcell) | rfl
      · exact isSeparator_codeRow cell hcell
      · rfl
      · exact hbody cell (by simp [hcell])
      · exact hseparator
    · intro _ hone
      have hwhole := hone _ _ hspells
      rw [whole_append, balance_of_inert hfront, add_zero, whole_append] at hwhole
      exact whole_callRow hdirection hwhole.2.1 hclose
    · intro hmode'
      rw [balance_callRow hdirection hclose (hcode (hmode ▸ hmode')), balance_append,
        balance_append, balance_of_inert hfront, balance_of_inert hback]
      omega
  · have hkept : Mends (text item) (text item) := .kept fun direction field h => hspells ⟨_, _, h⟩
    exact ⟨item, .kept, hkept, hpaints, rfl, fun _ => rfl, hbare, hbody, fun h _ => h, fun _ => rfl⟩

/-! ## Lists of keys -/

/-- The rows written for the items of a list.  The first item is read behind `last`, each other one
behind a comma; the scanner ends up in `s` behind the old list and in `t` behind the new one. -/
inductive Rewriting :
    Option Char → List (List Cell) → List (List Cell) → Scanner → Scanner → Prop where
  | last {last : Option Char} {item row : List Cell} (h : Rewritten (atCode last) item row) :
      Rewriting last [item] [row] ((atCode last).finish (text item))
        ((atCode last).finish (text row))
  | cons {last : Option Char} {item row : List Cell} {items rows : List (List Cell)} {s t : Scanner}
      (h : Rewritten (atCode last) item row)
      (hcode : ((atCode last).finish (text item)).mode = .code)
      (hrest : Rewriting (some ',') items rows s t) :
      Rewriting last (item :: items) (row :: rows) s t

namespace Rewriting

variable {last : Option Char} {items rows : List (List Cell)} {s t : Scanner}

theorem ne_nil (h : Rewriting last items rows s t) : items ≠ [] ∧ rows ≠ [] := by
  cases h <;> simp

theorem mends (h : Rewriting last items rows s t) :
    List.Forall₂ Mends (items.map text) (rows.map text) := by
  induction h with
  | last h => exact .cons h.mends .nil
  | cons h hcode hrest ih => exact .cons h.mends ih

theorem mode (h : Rewriting last items rows s t) : t.mode = s.mode := by
  induction h with
  | last h => exact h.mode
  | cons h hcode hrest ih => exact ih

theorem escaped (h : Rewriting last items rows s t) (ht : t.escaped = true) :
    s.escaped = true ∧ ∃ key ∈ (items.map text).getLast?, key.getLast? = some '\\' := by
  induction h with
  | @last last item row h =>
      obtain rfl := h.escaped ht
      refine ⟨ht, text row, rfl, ?_⟩
      rw [finish_eq_reach] at ht
      exact getLast?_of_escaped rfl (by simpa [text] using h.bare.ne_nil) ht
  | cons h hcode hrest ih =>
      obtain ⟨hs, key, hkey, hlast⟩ := ih ht
      refine ⟨hs, key, ?_, hlast⟩
      rwa [List.map_cons, List.getLast?_cons_of_ne_nil (by simpa using hrest.ne_nil.1)]

theorem paints (h : Rewriting last items rows s t) {behind : List Cell}
    (hcut : ∀ cell ∈ behind.head?, isNameChar cell.char = false) (hbehind : t.Paints behind) :
    (atCode last).Paints (List.intercalate (codeRow ", ".toList) rows ++ behind) := by
  induction h with
  | last h =>
      rw [List.intercalate_singleton]
      exact (paints_cut hcut).mpr ⟨h.paints, hbehind⟩
  | @cons last item row items rows s t h hcode hrest ih =>
      obtain ⟨next, rows, rfl⟩ := List.exists_cons_of_ne_nil hrest.ne_nil.2
      rw [List.intercalate_cons_cons, List.append_assoc, List.append_assoc]
      refine (paints_cut (by simp [codeRow]; decide)).mpr ⟨h.paints, ?_⟩
      exact FlagCount.settles_comma.paints (h.mode.trans hcode) (ih hbehind)

theorem bare (h : Rewriting last items rows s t) :
    Bare (List.intercalate (codeRow ", ".toList) rows) := by
  induction h with
  | last h =>
      rw [List.intercalate_singleton]
      exact h.bare
  | @cons last item row items rows s t h hcode hrest ih =>
      obtain ⟨next, rows, rfl⟩ := List.exists_cons_of_ne_nil hrest.ne_nil.2
      obtain ⟨cell, hcell, hblank⟩ := h.bare.1
      obtain ⟨final, hfinal, hdark⟩ := ih.2
      rw [List.intercalate_cons_cons]
      refine ⟨⟨cell, ?_, hblank⟩, final, ?_, hdark⟩
      · rw [List.append_assoc, List.head?_append, Option.mem_def.mp hcell]
        rfl
      · rwa [List.getLast?_append_of_ne_nil _ ih.ne_nil]

theorem body (h : Rewriting last items rows s t) :
    ∀ cell ∈ List.intercalate (codeRow ", ".toList) rows, cell.isSeparator = false := by
  have hrows : ∀ row ∈ rows, ∀ cell ∈ row, cell.isSeparator = false := by
    induction h with
    | last h => simpa using h.body
    | cons h hcode hrest ih => exact List.forall_mem_cons.mpr ⟨h.body, ih⟩
  intro cell hcell
  rcases FlagCount.mem_of_mem_intercalate hcell with hcell | ⟨row, hrow, hcell⟩
  · exact isSeparator_codeRow cell hcell
  · exact hrows row hrow cell hcell

theorem listed (h : Rewriting last items rows s t) (hitems : Listed items)
    (hwhole : ∀ item ∈ items, ∀ direction field,
      Spells (text item) direction field → Whole 1 item) : Listed rows := by
  induction h with
  | last h =>
      obtain ⟨-, hitem, -, -⟩ := hitems
      exact ⟨h.bare, h.whole hitem (hwhole _ (by simp)), .inl rfl, trivial⟩
  | cons h hcode hrest ih =>
      obtain ⟨-, hitem, hbalance, hitems⟩ := hitems
      refine ⟨h.bare, h.whole hitem (hwhole _ (by simp)), .inr ?_,
        ih hitems fun item hitem => hwhole item (by simp [hitem])⟩
      rw [h.balance hcode, hbalance.resolve_left hrest.ne_nil.1]

end Rewriting

/-! ## The keys of a row -/

theorem finish_commas {part : List Char} (h : ∀ c ∈ part, c = ',' ∨ isBlank c = true) :
    (atCode (some ',')).finish part = atCode (some ',') := by
  induction part with
  | nil => rfl
  | cons c part ih =>
      obtain ⟨hc, hpart⟩ := List.forall_mem_cons.mp h
      rw [finish]
      rcases hc with rfl | hblank
      · exact ih hpart
      · rw [step_blank rfl hblank]
        exact ih hpart

section Row

variable {last : Option Char} {row : List Cell}

theorem paints_blanks {blanks b : List Cell} (hblanks : ∀ cell ∈ blanks, isBlank cell.char = true)
    (h : (atCode last).Paints (blanks ++ b)) : (atCode last).Paints b ∧
      (atCode last).finish (text (blanks ++ b)) = (atCode last).finish (text b) := by
  have hreach := fun rest => reach_blanks (forall_mem_text hblanks) last rest
  rw [paints_append, hreach] at h
  rw [text_append, finish_append, hreach]
  exact ⟨h.2, rfl⟩

theorem paints_comma {s : Scanner} {a b : List Cell} {comma : Cell}
    (hcomma : comma.isCode ',' = true) (h : s.Paints (a ++ comma :: b)) :
    (atCode (some ',')).Paints b ∧
      s.finish (text (a ++ comma :: b)) = (atCode (some ',')).finish (text b) := by
  obtain ⟨hchar, hcode⟩ : comma.char = ',' ∧ comma.isLiteral = false := by
    simpa [Cell.isCode] using hcomma
  have hsolid : Solid comma.char := by
    rw [hchar]
    decide
  have hbehind := (h.after_first hcode hsolid).2
  rw [hchar] at hbehind
  refine ⟨hbehind, ?_⟩
  rw [text_append, finish_append, text_cons, finish, ← text_cons,
    step_solid (h.mode hcode) hsolid, hchar]

theorem mode_of_comma {item spaces b : List Cell} {comma : Cell} (hcomma : comma.isCode ',' = true)
    (hspaces : ∀ cell ∈ spaces, isBlank cell.char = true)
    (h : (atCode last).Paints (item ++ (spaces ++ comma :: b))) :
    (atCode last).Paints item ∧ ((atCode last).finish (text item)).mode = .code := by
  obtain ⟨hchar, hcode⟩ : comma.char = ',' ∧ comma.isLiteral = false := by
    simpa [Cell.isCode] using hcomma
  have hcut : ∀ cell ∈ (spaces ++ comma :: b).head?, isNameChar cell.char = false := by
    cases spaces with
    | nil =>
        simp only [List.nil_append, List.head?_cons, Option.mem_def, Option.some.injEq]
        rintro _ rfl
        rw [hchar]
        decide
    | cons space spaces => simp [isNameChar_of_isBlank (hspaces space (by simp))]
  obtain ⟨hitem, hrest⟩ := (paints_cut hcut).mp h
  refine ⟨hitem, hrest.mode_of_blanks (fun more hmode => ?_) hspaces hcode ?_⟩
  · exact absurd hmode (finish_atCode_ne_flags last _ more)
  · rw [hchar]
    decide

theorem eq_nil_of_dark {a spaces : List Cell} (hspaces : ∀ cell ∈ spaces, isBlank cell.char = true)
    (hdark : ∃ cell ∈ (a ++ spaces).getLast?, isBlank cell.char = false) : spaces = [] := by
  obtain ⟨cell, hcell, hcellDark⟩ := hdark
  by_contra hne
  rw [List.getLast?_append_of_ne_nil _ hne] at hcell
  simp [hspaces cell (List.mem_of_getLast? hcell)] at hcellDark

theorem getLast?_of_comma {a b : List Cell} {comma : Cell} (hcomma : comma.isCode ',' = true)
    (hb : listItems b = [])
    (hdark : ∃ cell ∈ (a ++ comma :: b).getLast?, isBlank cell.char = false) :
    (text (a ++ comma :: b)).getLast? = some ',' := by
  obtain ⟨cell, hcell, hcellDark⟩ := hdark
  have hchar : cell.char = ',' := by
    rw [List.getLast?_append_of_ne_nil _ (by simp)] at hcell
    rcases List.mem_cons.mp (List.mem_of_getLast? hcell) with rfl | hmem
    · simpa using (Bool.and_eq_true_iff.mp hcomma).1
    · exact (comma_or_blank hb cell hmem).resolve_right (by simp [hcellDark])
  rw [text, List.getLast?_map, Option.mem_def.mp hcell, Option.map_some, hchar]

theorem trimStart_comma {a b : List Cell} {comma : Cell} (hcomma : comma.isCode ',' = true)
    (ha : ∀ cell ∈ a, isBlank cell.char = true) :
    (trimStart (text (a ++ comma :: b))).head? = some ',' := by
  have hchar : comma.char = ',' := by simpa using (Bool.and_eq_true_iff.mp hcomma).1
  rw [text_append, trimStart, dropWhile_stop (forall_mem_text ha)]
  · simp [hchar]
  · simp [hchar]
    decide

theorem getLast?_append_cons {α : Type} (a : List α) (x : α) {b : List α} (hb : b ≠ []) :
    (a ++ x :: b).getLast? = b.getLast? := by
  rw [List.getLast?_append_of_ne_nil _ (by simp), List.getLast?_cons_of_ne_nil hb]

/-- The keys of a row that does not start with a comma, and what is written for them.  A comma at
its end is not written. -/
theorem exists_rewriting (hpaints : (atCode last).Paints row)
    (hbody : ∀ cell ∈ row, cell.isSeparator = false)
    (hfirst : last = some ',' ∨ (trimStart (text row)).head? ≠ some ',')
    (hdark : ∃ cell ∈ row.getLast?, isBlank cell.char = false) (hne : listItems row ≠ []) :
    ∃ rows s t, Rewriting last (listItems row) rows s t ∧
      (s = (atCode last).finish (text row) ∨
        s.mode = .code ∧ (text row).getLast? = some ',' ∧
          ((atCode last).finish (text row)).mode = .code) := by
  induction row using cut_induction generalizing last with
  | whole row hwhole =>
      rcases blank_or_item hwhole with
        ⟨-, hnil⟩ | ⟨blanks, item, spaces, rfl, hblanks, hspaces, hbare, -, -, hitem⟩
      · exact absurd hnil hne
      · obtain rfl := eq_nil_of_dark hspaces hdark
        rw [List.append_nil] at hpaints hbody hitem ⊢
        obtain ⟨hread, hfinish⟩ := paints_blanks hblanks hpaints
        obtain ⟨row, hrow⟩ :=
          exists_rewritten hread hbare fun cell hcell => hbody cell (by simp [hcell])
        rw [hitem, hfinish]
        exact ⟨[row], _, _, .last hrow, .inl rfl⟩
  | cut a comma b ha hbalance hcomma ih =>
      obtain ⟨hbehind, hfinish⟩ := paints_comma hcomma hpaints
      have hrest (hb : listItems b ≠ []) : ∃ rows s t, Rewriting (some ',') (listItems b) rows s t ∧
          (s = (atCode (some ',')).finish (text b) ∨
            s.mode = .code ∧ (text (a ++ comma :: b)).getLast? = some ',' ∧
              ((atCode (some ',')).finish (text b)).mode = .code) := by
        have hnil : b ≠ [] := by
          rintro rfl
          exact hb rfl
        rw [getLast?_append_cons a comma hnil] at hdark
        rw [text_append, text_cons, getLast?_append_cons _ _ (by simpa [text] using hnil)]
        exact ih hbehind (fun cell hcell => hbody cell (by simp [hcell])) (.inl rfl) hdark hb
      rw [listItems_cut ha hbalance hcomma] at hne ⊢
      rw [hfinish]
      rcases blank_or_item ha with
        ⟨hblank, hnil⟩ | ⟨blanks, item, spaces, rfl, hblanks, hspaces, hbare, -, -, hitem⟩
      · -- The row starts with a comma, so it stands behind another one.
        obtain rfl := hfirst.resolve_right fun h => h (trimStart_comma hcomma hblank)
        rw [hnil, List.nil_append] at hne ⊢
        exact hrest hne
      · rw [List.append_assoc, List.append_assoc] at hpaints
        obtain ⟨hread, hmode⟩ := mode_of_comma hcomma hspaces (paints_blanks hblanks hpaints).1
        obtain ⟨row, hrow⟩ :=
          exists_rewritten hread hbare fun cell hcell => hbody cell (by simp [hcell])
        rw [hitem]
        by_cases hb : listItems b = []
        · -- Only commas and blanks follow.
          have hcommas : ∀ c ∈ text b, c = ',' ∨ isBlank c = true := by
            simpa [text] using comma_or_blank hb
          rw [hb, finish_commas hcommas]
          exact ⟨[row], _, _, .last hrow, .inr ⟨hmode, getLast?_of_comma hcomma hb hdark, rfl⟩⟩
        · obtain ⟨rows, s, t, hrewriting, hend⟩ := hrest hb
          exact ⟨row :: rows, s, t, .cons hrow hmode hrewriting, hend⟩

end Row

end SortCall

end OpalRepair
