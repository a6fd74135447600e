import Mathlib
import OpalRepair.Proofs.Expanding.Rows
import OpalRepair.Proofs.Settling.Calm
import OpalRepair.Proofs.Template.Fragment

/-!
# Marks of the passes

What three of the passes look for: an attribute whose key is not quoted, a metric that is selected,
and a bracket behind a tilde that does not hold a single term.  All three are local, and on a row
that is calm for its mark a pass is silent.
-/

namespace OpalRepair

open Query Text Vocabulary

/-! ## Reading names -/

namespace Query

variable {row behind : List Cell}

theorem takeWhile_parted (hne : row ≠ [])
    (hpath : (∀ c ∈ (text row).getLast?, QuoteKey.isPathChar c = false) ∨
      ∀ c ∈ (text behind).head?, QuoteKey.isPathChar c = false) {p : Char → Bool}
    (hp : ∀ c, p c = true → QuoteKey.isPathChar c = true) :
    (text (row ++ behind)).takeWhile p = (text row).takeWhile p ∧
      (text (row ++ behind)).dropWhile p = (text row).dropWhile p ++ text behind := by
  rw [text_append]
  by_cases hall : ∀ c ∈ text row, p c = true
  · obtain ⟨c, hc⟩ : ∃ c, (text row).getLast? = some c := by
      cases hlast : (text row).getLast? with
      | some c => exact ⟨c, rfl⟩
      | none => simp [text, hne] at hlast
    have hhead : ∀ c ∈ (text behind).head?, p c = false := by
      rcases hpath with hpath | hpath
      · exact absurd (hp c (hall c (List.mem_of_getLast? hc))) (by simp [hpath c hc])
      · intro d hd
        by_contra hpd
        exact absurd (hp d (by simpa using hpd)) (by simp [hpath d hd])
    rw [List.takeWhile_append_of_pos hall, List.dropWhile_append_of_pos hall,
      List.takeWhile_eq_self_iff.mpr hall, List.dropWhile_eq_nil_iff.mpr hall]
    cases hbehind : text behind with
    | nil => simp
    | cons d rest => simp [hhead d (by simp [hbehind])]
  · have hdrop : (text row).dropWhile p ≠ [] := fun hnil =>
      hall (List.dropWhile_eq_nil_iff.mp hnil)
    have htake : ((text row).takeWhile p).length ≠ (text row).length := fun hlength => by
      refine hdrop (List.length_eq_zero_iff.mp ?_)
      have := congrArg List.length (List.takeWhile_append_dropWhile (p := p) (l := text row))
      rw [List.length_append] at this
      omega
    rw [List.takeWhile_append, if_neg htake, List.dropWhile_append, if_neg (by simpa using hdrop)]
    exact ⟨rfl, rfl⟩

theorem skipTo?_of_append {c : Char} {a b : List Char} (h : skipTo? c (a ++ b) = none) :
    skipTo? c a = none := by
  rw [skipTo?_eq_none, trimStart] at h ⊢
  intro hhead
  refine h ?_
  rw [List.dropWhile_append, if_neg (by cases hdrop : a.dropWhile isBlank <;> simp_all),
    List.head?_append, hhead]
  rfl

theorem local_of_reading {marks : Option Char → List Cell → Bool} {reads : List Cell → Prop}
    (hmarks : ∀ previous row, marks previous row = true ↔ StartsPath previous ∧ reads row)
    (hstart : ∀ cell row, reads (cell :: row) → isNameChar cell.char = true)
    (hname : ∀ name behind, (∀ c ∈ name, isNameChar c = true) →
      (∀ c ∈ (text behind).head?, QuoteKey.isPathChar c = false) →
      skipTo? '(' (text behind) = none ∨ metricSelectors.contains (String.ofList name) = false →
      ¬ reads (codeRow name ++ behind))
    (hpart : ∀ row behind, row ≠ [] → Parted row behind → (reads (row ++ behind) ↔ reads row)) :
    Local marks where
  previous := by
    intro before before' cell row h
    rw [Bool.eq_iff_iff, hmarks, hmarks]
    rcases h with ⟨hbefore, hbefore'⟩ | hcell
    · exact and_congr_left' (iff_of_true hbefore hbefore')
    · have hreads : ¬ reads (cell :: row) := fun hreads => by simp [hstart cell row hreads] at hcell
      simp [hreads]
  start hcell _ := by
    rw [Bool.eq_false_iff, ne_eq, hmarks]
    exact fun h => by simp [hstart _ _ h.2] at hcell
  inner hc _ := by
    rw [Bool.eq_false_iff, ne_eq, hmarks]
    exact fun h => by simpa [isWordChar_of_isNameChar hc] using (h.1 _ rfl).1
  name _ hchars hhead hcall := by
    rw [Bool.eq_false_iff, ne_eq, hmarks]
    exact fun h => hname _ _ hchars hhead hcall h.2
  part hne hbehind hbehind' h := by
    rw [Bool.eq_false_iff, ne_eq, hmarks, hpart _ _ hne hbehind] at h
    rwa [Bool.eq_false_iff, ne_eq, hmarks, hpart _ _ hne hbehind']

end Query

/-! ## Attributes -/

namespace QuoteKey

def marks (previous : Option Char) (row : List Cell) : Bool :=
  (fragment? previous row).any fun fragment => fragment.replacement.isSome

def Unquoted (row : List Cell) : Prop :=
  row.head?.any Cell.isLiteral = false ∧ ∃ parent key, attribute? (text row) = some (parent, key) ∧
    skipTo? '(' (text (row.drop (parent.length + key.length + 1))) = none

theorem marks_iff (previous : Option Char) (row : List Cell) :
    marks previous row = true ↔ StartsPath previous ∧ Unquoted row := by
  have hcontinues : Site.continuesPath ⟨0, previous, row⟩ = previous.any isPathChar := rfl
  rw [startsPath_iff, marks, fragment?, Unquoted]
  simp only [Site.startsWord, Site.inLiteral, hcontinues]
  cases attribute? (text row) with
  | none => simp
  | some found =>
      obtain ⟨parent, key⟩ := found
      cases joinsWord previous <;> cases previous.any isPathChar <;>
        cases row.head?.any Cell.isLiteral <;> simp

theorem attribute?_name {name behind : List Char} (hname : ∀ c ∈ name, isNameChar c = true)
    (hbehind : ∀ c ∈ behind.head?, isPathChar c = false) : attribute? (name ++ behind) = none := by
  have hpath : ∀ c ∈ name, isPathChar c = true := fun c hc => by simp [isPathChar, hname c hc]
  have hrun : (name ++ behind).takeWhile isPathChar = name.takeWhile isPathChar := by
    rw [List.takeWhile_append_of_pos hpath, List.takeWhile_eq_self_iff.mpr hpath]
    cases behind with
    | nil => simp
    | cons d rest => simp [hbehind d rfl]
  rw [attribute?_congr hrun]
  by_contra hsome
  obtain ⟨⟨parent, key⟩, hfound⟩ := Option.ne_none_iff_exists'.mp hsome
  obtain ⟨rest, rfl, -⟩ := attribute?_eq hfound
  exact absurd (hname '.' (by simp)) (by decide)

theorem unquoted_append {row behind : List Cell} (hne : row ≠ []) (h : Parted row behind) :
    Unquoted (row ++ behind) ↔ Unquoted row := by
  have hhead : (row ++ behind).head? = row.head? := List.head?_append_of_ne_nil _ hne
  have hfound : attribute? (text (row ++ behind)) = attribute? (text row) :=
    attribute?_congr (takeWhile_parted hne h.path fun _ hc => hc).1
  rw [Unquoted, Unquoted, hhead, hfound]
  refine and_congr_right fun _ => exists_congr fun parent => exists_congr fun key =>
    and_congr_right fun hattribute => ?_
  rw [List.drop_append_of_le_length (length_attribute? hattribute), text_append,
    AlignMetric.skipTo?_append h.blunt.skipTo?.1, Option.map_eq_none_iff]

theorem unquoted_of_paren {row rest : List Cell} (hne : row ≠ [])
    (hlast : ∀ c ∈ (text row).getLast?, isPathChar c = false)
    (h : Unquoted (row ++ ⟨'(', .code⟩ :: rest)) : Unquoted row := by
  obtain ⟨hcode, parent, key, hattribute, hcalled⟩ := h
  rw [attribute?_congr (takeWhile_parted hne (.inl hlast) fun _ hc => hc).1] at hattribute
  rw [List.drop_append_of_le_length (length_attribute? hattribute), text_append] at hcalled
  rw [List.head?_append_of_ne_nil _ hne] at hcode
  exact ⟨hcode, parent, key, hattribute, skipTo?_of_append hcalled⟩

theorem local_marks : Local marks := by
  refine local_of_reading marks_iff ?_ ?_ fun row behind hne h => unquoted_append hne h
  · rintro cell row ⟨-, parent, key, hattribute, -⟩
    by_contra hcell
    rw [attribute?_eq_none_of_head (by simpa using hcell)] at hattribute
    simp at hattribute
  · rintro name behind hname hhead - ⟨-, parent, key, hattribute, -⟩
    rw [text_append, text_codeRow, attribute?_name hname hhead] at hattribute
    simp at hattribute

theorem framed_marks : Framed marks where
  toLocal := local_marks
  paren hne hbehind hlast h := by
    rw [Bool.eq_false_iff, ne_eq, marks_iff] at h ⊢
    rw [unquoted_append hne hbehind] at h
    exact fun hreads => h ⟨hreads.1, unquoted_of_paren hne hlast hreads.2⟩
  literal hliteral _ _ := by
    rw [Bool.eq_false_iff, ne_eq, marks_iff]
    rintro ⟨-, hcode, -⟩
    simp [hliteral] at hcode

theorem calm_path {previous : Option Char} {part : List Cell} (behind : List Cell)
    (hprevious : previous.any isPathChar = true) (hpart : ∀ c ∈ text part, isPathChar c = true) :
    Calm marks previous part behind := by
  induction part generalizing previous with
  | nil => trivial
  | cons cell part ih =>
      obtain ⟨hcell, hrest⟩ := List.forall_mem_cons.mp hpart
      refine ⟨?_, ih (by simpa using hcell) hrest⟩
      rw [Bool.eq_false_iff, ne_eq, marks_iff, startsPath_iff, hprevious]
      simp

/-- Where nothing is quoted, there is nothing to quote: the places that the pass steps over lie
inside of paths. -/
theorem Quotes.calm {previous : Option Char} {row new : List Cell} {patch : Patch}
    (h : Quotes previous row patch new) (hsilent : patch.changes = []) :
    Calm marks previous row [] := by
  induction h with
  | nil => trivial
  | @pass previous cell row patch new hfind hrest ih =>
      refine ⟨?_, ih hsilent⟩
      rw [List.append_nil, marks, hfind]
      rfl
  | @leave previous part row patch new parent key more hpart hattribute hlength hfind hrest ih =>
      have hpath := hattribute.path
      rw [← hpart] at hpath
      cases part with
      | nil => simp at hlength
      | cons first part =>
          obtain ⟨hfirst, htail⟩ := List.forall_mem_cons.mp hpath
          rw [calm_append, List.append_nil]
          refine ⟨⟨?_, calm_path row (by simpa using hfirst) htail⟩, ?_⟩
          · rw [← List.cons_append, marks, hfind]
            rfl
          · rw [text_cons, List.getLast?_cons, Option.some_or]
            rw [text_cons, List.getLast?_cons] at ih
            exact ih hsilent
  | quote => simp [Patch.changes, Piece.change?] at hsilent

theorem calm_of_silent {query : List Char} (h : (patch query).changes = []) :
    Calm marks none (cells query) [] := by
  obtain ⟨new, hquotes⟩ := exists_quotes none (cells query)
  exact hquotes.calm h

end QuoteKey

/-! ## Metrics -/

namespace AlignMetric

def marks (previous : Option Char) (row : List Cell) : Bool :=
  (selectionAt? ⟨0, previous, row⟩).isSome

def Selects (row : List Cell) : Prop :=
  row.head?.any Cell.isLiteral = false ∧ ∃ call ∈ callHead? (text row),
    metricSelectors.contains (String.ofList call.1) = true

theorem marks_iff (previous : Option Char) (row : List Cell) :
    marks previous row = true ↔ StartsPath previous ∧ Selects row := by
  have hcontinues : Site.continuesPath ⟨0, previous, row⟩ = previous.any QuoteKey.isPathChar := rfl
  rw [startsPath_iff, marks, selectionAt?, Selects]
  simp only [Site.startsWord, Site.inLiteral, hcontinues]
  cases callHead? (text row) with
  | none => simp
  | some call =>
      obtain ⟨name, rest⟩ := call
      cases joinsWord previous <;> cases previous.any QuoteKey.isPathChar <;>
        cases row.head?.any Cell.isLiteral <;> simp

theorem callHead?_parted {row behind : List Cell} (hne : row ≠ []) (h : Parted row behind) :
    callHead? (text (row ++ behind)) =
      (callHead? (text row)).map fun call => (call.1, call.2 ++ text behind) := by
  obtain ⟨htake, hdrop⟩ := takeWhile_parted hne h.path (p := isNameChar) fun c hc => by
    simp [QuoteKey.isPathChar, hc]
  rw [callHead?, callHead?, htake, hdrop, skipTo?_append h.blunt.skipTo?.1, Option.map_map,
    Option.map_map]
  rfl

theorem callHead?_name {name behind : List Char} (hname : ∀ c ∈ name, isNameChar c = true)
    (hbehind : ∀ c ∈ behind.head?, QuoteKey.isPathChar c = false) :
    callHead? (name ++ behind) = (skipTo? '(' behind).map fun rest => (name, rest) := by
  have hhead : ∀ c ∈ behind.head?, isNameChar c = false := fun c hc => by
    simpa [QuoteKey.isPathChar] using (Bool.or_eq_false_iff.mp (hbehind c hc)).1
  obtain ⟨htake, hdrop⟩ := name_append hhead name
  rw [callHead?, htake, hdrop, List.takeWhile_eq_self_iff.mpr hname,
    List.dropWhile_eq_nil_iff.mpr hname, List.nil_append]

theorem local_marks : Local marks := by
  refine local_of_reading marks_iff ?_ ?_ fun row behind hne h => ?_
  · rintro cell row ⟨-, ⟨name, rest⟩, hcall, hselector⟩
    by_contra hcell
    refine (isNameChar_of_metricSelector hselector).1 ?_
    rw [(callHead?_eq hcall).1, text_cons, List.takeWhile_cons_of_neg hcell]
  · rintro name behind hname hhead hcalled ⟨-, call, hcall, hselector⟩
    rw [text_append, text_codeRow, callHead?_name hname hhead] at hcall
    obtain ⟨rest, hrest, rfl⟩ := Option.map_eq_some_iff.mp hcall
    rcases hcalled with hnone | hother
    · simp [hnone] at hrest
    · exact absurd hselector (by simpa using hother)
  · have hhead : (row ++ behind).head? = row.head? := List.head?_append_of_ne_nil _ hne
    rw [Selects, Selects, hhead, callHead?_parted hne h]
    simp

theorem selections_eq_nil_iff (stage : Stage) :
    selections stage = [] ↔ Calm marks none stage.body [] := by
  have hfrom (index : Nat) (previous : Option Char) (row : List Cell) :
      (sitesFrom index previous row).filterMap selectionAt? = [] ↔ Calm marks previous row [] := by
    induction row generalizing index previous with
    | nil => simp [sitesFrom, Calm]
    | cons cell row ih =>
        have hshift := selectionAt?_shift index 0 previous (cell :: row)
        rw [sitesFrom, Calm, List.append_nil, ← ih (index + 1)]
        cases hfound : selectionAt? ⟨0, previous, cell :: row⟩ <;>
          simp_all [marks]
  exact hfrom 0 none stage.body

end AlignMetric

/-! ## Searches -/

namespace ExpandTerms

/-- A tilde and a bracket behind it that does not hold just one term. -/
def opensTerms : List Char → Bool
  | [] => false
  | c :: rest => c == '~' && (skipTo? '<' rest).any fun content =>
      (content.dropWhile isTermChar).head? != some '>'

def marks (_ : Option Char) (row : List Cell) : Bool := opensTerms (text row)

theorem opensTerms_iff {c : Char} {rest : List Char} : opensTerms (c :: rest) = true ↔
    c = '~' ∧ ∃ content, skipTo? '<' rest = some content ∧
      (content.dropWhile isTermChar).head? ≠ some '>' := by
  rw [opensTerms]
  cases skipTo? '<' rest <;> simp

theorem opensTerms_of_ne {c : Char} (h : c ≠ '~') (rest : List Char) :
    opensTerms (c :: rest) = false := by
  rw [Bool.eq_false_iff, ne_eq, opensTerms_iff]
  exact fun hopens => h hopens.1

theorem opensTerms_of_isNameChar {c : Char} (h : isNameChar c = true) (rest : List Char) :
    opensTerms (c :: rest) = false := by
  refine opensTerms_of_ne ?_ rest
  rintro rfl
  exact absurd h (by decide)

theorem opensTerms_append {text behind behind' : List Char} (hne : text ≠ []) (h : Blunt behind)
    (h' : skipTo? '<' behind' = none) (hopens : opensTerms (text ++ behind') = true) :
    opensTerms (text ++ behind) = true := by
  cases text with
  | nil => exact absurd rfl hne
  | cons c rest =>
      rw [List.cons_append, opensTerms_iff] at hopens ⊢
      obtain ⟨hc, content', hcontent, hterm⟩ := hopens
      rw [AlignMetric.skipTo?_append h'] at hcontent
      obtain ⟨content, hinside, rfl⟩ := Option.map_eq_some_iff.mp hcontent
      refine ⟨hc, content ++ behind, ?_, ?_⟩
      · rw [AlignMetric.skipTo?_append h.skipTo?.2, hinside]
        rfl
      · rw [List.dropWhile_append] at hterm ⊢
        split
        · exact h.term
        · rename_i hdrop
          rw [if_neg hdrop] at hterm
          rwa [List.head?_append_of_ne_nil _ (by simpa using hdrop)] at hterm ⊢

theorem local_marks : Local marks where
  previous _ := rfl
  start _ hcell := opensTerms_of_ne hcell _
  inner _ hname := opensTerms_of_isNameChar hname _
  name {previous name behind} hne hname _ _ := by
    cases name with
    | nil => exact absurd rfl hne
    | cons c name => exact opensTerms_of_isNameChar (hname c List.mem_cons_self) _
  part {previous row behind behind'} hne h h' hsingle := by
    rw [marks, text_append, Bool.eq_false_iff] at hsingle ⊢
    exact mt (opensTerms_append (by simpa [text] using hne) h.blunt h'.blunt.skipTo?.2) hsingle

theorem framed_marks : Framed marks where
  toLocal := local_marks
  paren {previous row behind rest} hne h _ hsingle := by
    rw [marks, text_append, Bool.eq_false_iff] at hsingle ⊢
    exact mt (opensTerms_append (by simpa [text] using hne) h.blunt rfl) hsingle
  literal {previous cell content quote behind} _ hcontent hquote := by
    rw [marks, Bool.eq_false_iff, text_cons, ne_eq, opensTerms_iff]
    rintro ⟨-, inside, hinside, -⟩
    have hnone : skipTo? '<' (text (quote :: behind)) = none := by
      rw [text_cons, hquote]
      rfl
    rw [text_append, AlignMetric.skipTo?_append hnone] at hinside
    obtain ⟨rest, hrest, -⟩ := Option.map_eq_some_iff.mp hinside
    obtain ⟨blanks, -, htext⟩ := skipTo?_eq hrest
    exact hcontent (by simp [htext])

end ExpandTerms

/-! ## Silent passes -/

theorem Query.Calm.at_place {marks : Option Char → List Cell → Bool} {before : Option Char}
    {front rest behind : List Cell} {cell : Cell}
    (h : Calm marks before (front ++ cell :: rest) behind) :
    marks ((text front).getLast?.or before) (cell :: (rest ++ behind)) = false :=
  (calm_append.mp h).2.1

theorem Patch.changes_walk_eq_nil {find? : Option Char → List Cell → Option Fragment}
    {previous : Option Char} {row : List Cell}
    (h : ∀ front cell rest, row = front ++ cell :: rest →
      ∀ fragment ∈ find? ((text front).getLast?.or previous) (cell :: rest),
        fragment.replacement = none) (skip : Nat) :
    (walk find? skip previous row).changes = [] := by
  induction row generalizing skip previous with
  | nil => cases skip <;> rfl
  | cons cell row ih =>
      have hrest (skip : Nat) : (walk find? skip (some cell.char) row).changes = [] := by
        refine ih (fun front other rest hrow fragment hfragment => ?_) skip
        refine h (cell :: front) other rest (by rw [hrow]; rfl) fragment ?_
        rwa [text_cons, getLast?_cons_or]
      cases skip with
      | succ skip => exact hrest skip
      | zero =>
          rw [walk]
          split
          · exact hrest 0
          · rename_i fragment hfound
            have hkeep := h [] cell row rfl fragment hfound
            rw [Fragment.piece, hkeep]
            exact hrest fragment.more

theorem QuoteKey.silent_of_calm {query : List Char} (h : Calm marks none (cells query) []) :
    (patch query).changes = [] := by
  refine Patch.changes_walk_eq_nil (fun front cell rest hrow fragment hfragment => ?_) 0
  rw [hrow] at h
  have hmark := h.at_place
  rw [List.append_nil, marks, Option.mem_def.mp hfragment] at hmark
  simpa using hmark

theorem AlignMetric.silent_of_stages {query : List Char}
    (h : (∃ stage ∈ (layout query).stages, stage.hasVerb "align" = true) ∨
      ∀ stage ∈ (layout query).stages, selections stage = []) : (patch query).changes = [] := by
  rw [patch, if_pos]
  · rfl
  · rw [Bool.or_eq_true]
    refine h.imp List.any_eq_true.mpr fun hnone => ?_
    rw [List.flatMap_eq_nil_iff.mpr hnone]
    rfl

namespace ExpandTerms

theorem isTermChar_of_closed {content rest : List Char}
    (hcontent : ∀ c ∈ content, c ≠ '<' ∧ c ≠ '>')
    (h : ((content ++ '>' :: rest).dropWhile isTermChar).head? = some '>') :
    ∀ c ∈ content, isTermChar c = true := by
  rw [← List.dropWhile_eq_nil_iff]
  by_contra hne
  rw [List.dropWhile_append, if_neg (by simpa using hne), List.head?_append_of_ne_nil _ hne] at h
  have hmem := (List.dropWhile_suffix isTermChar).subset (List.mem_of_mem_head? h)
  exact (hcontent '>' hmem).2 rfl

theorem expand?_of_term {content : List Char} (h : ∀ c ∈ content, isTermChar c = true)
    (field : List Char) : expand? field (terms content) = none := by
  have hword : ∀ c ∈ content, c ≠ '"' ∧ isBlank c = false := by
    intro c hc
    have hterm := h c hc
    simp only [isTermChar, Bool.and_eq_true, Bool.not_eq_true'] at hterm
    refine ⟨?_, hterm.1⟩
    rintro rfl
    exact absurd hterm.2 (by decide)
  have hterms := termsFrom_word hword [] []
  rw [List.append_nil] at hterms
  rw [expand?, if_pos]
  rw [terms, hterms]
  exact (List.length_filter_le _ _).trans_lt (show 1 < 2 by decide)

theorem silent_of_calm {query : List Char} (h : Calm marks none (cells query) []) :
    (patch query).changes = [] := by
  refine Patch.changes_walk_eq_nil (fun front cell rest hrow fragment hfragment => ?_) 0
  obtain ⟨part, behind, field, content, hpart, -, hsearch, hreplaced⟩ :=
    fragment?_eq_some hfragment
  by_contra hsome
  obtain ⟨replacement, hreplacement⟩ := Option.ne_none_iff_exists'.mp hsome
  obtain ⟨hexpand, -⟩ := hreplaced replacement hreplacement
  obtain ⟨-, hcontent, gap, blanks, -, hblanks, htext⟩ := hsearch
  have hsplit : text part = (field ++ gap) ++ '~' :: (blanks ++ '<' :: (content ++ ['>'])) := by
    rw [htext]
    simp
  obtain ⟨before, after, rfl, -, hafter⟩ := row_of_text hsplit
  obtain ⟨tilde, after, rfl, htilde, hafter⟩ := row_of_text_cons hafter
  rw [hrow, hpart, List.append_assoc, List.cons_append, ← List.append_assoc] at h
  have hmark := h.at_place
  rw [List.append_nil, marks, Bool.eq_false_iff, ne_eq, text_cons, text_append, hafter,
    opensTerms_iff] at hmark
  refine hmark ⟨htilde, content ++ '>' :: text behind, ?_, fun hclosed => ?_⟩
  · rw [List.append_assoc, List.cons_append, skipTo?_blanks hblanks (by decide), if_pos rfl]
    simp
  · rw [expand?_of_term (isTermChar_of_closed hcontent hclosed)] at hexpand
    simp at hexpand

end ExpandTerms

end OpalRepair
