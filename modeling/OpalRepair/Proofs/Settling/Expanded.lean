import Mathlib
import OpalRepair.Proofs.Keeping.Expanded
import OpalRepair.Proofs.Settling.Stages

/-!
# Calm searches

A search becomes calls in parentheses.  The calls are calm, but what stands in front of the search
is followed by a parenthesis now.

Main statement: `ExpandTerms.calm_after`.
-/

namespace OpalRepair

open Query Text Vocabulary

/-! ## Calls for a field -/

namespace ExpandTerms

theorem mem_of_mem_termsFrom {current content term : List Char} {quoted : Bool}
    (h : term ∈ termsFrom current quoted content) : ∀ c ∈ term, c ∈ current ∨ c ∈ content := by
  induction content generalizing current quoted with
  | nil =>
      obtain rfl := List.mem_singleton.mp h
      exact fun c hc => .inl hc
  | cons d content ih =>
      have hcut (hterm : term ∈ current :: termsFrom [] false content) :
          ∀ c ∈ term, c ∈ current ∨ c ∈ d :: content := by
        intro c hc
        rcases List.mem_cons.mp hterm with rfl | hterm
        · exact .inl hc
        · exact (ih hterm c hc).elim (by simp) fun hmem => .inr (List.mem_cons_of_mem d hmem)
      rw [termsFrom] at h
      split_ifs at h
      · exact hcut h
      · exact fun c hc => (ih h c hc).imp_right (List.mem_cons_of_mem d)
      · exact hcut h
      · intro c hc
        rcases ih h c hc with hmem | hmem
        · simpa [or_assoc] using Or.inl hmem
        · exact .inr (List.mem_cons_of_mem d hmem)

theorem mem_of_mem_escape {term : List Char} {c : Char} (h : c ∈ escape term) :
    c = '\\' ∨ c ∈ term := by
  obtain ⟨d, hd, hc⟩ := List.mem_flatMap.mp h
  split_ifs at hc
  · rcases List.mem_cons.mp hc with rfl | hc
    · exact .inl rfl
    · exact .inr (List.mem_singleton.mp hc ▸ hd)
  · exact .inr (List.mem_singleton.mp hc ▸ hd)

section Calls

variable {marks : Option Char → List Cell → Bool} (hframed : Framed marks) {field : List Char}

include hframed

theorem calm_literalRow {content : List Char} (h : '<' ∉ content) (previous : Option Char)
    (behind : List Cell) : Calm marks previous (literalRow .double content) behind := by
  have hinside (front : List Char) (previous : Option Char) (hfront : '<' ∉ front) :
      Calm marks previous (contentRow front) ([⟨'"', .closing⟩] ++ behind) := by
    induction front generalizing previous with
    | nil => trivial
    | cons c front ih =>
        have hrest : '<' ∉ front := fun hmem => hfront (List.mem_cons_of_mem c hmem)
        refine ⟨hframed.literal rfl ?_ rfl, ih _ hrest⟩
        rwa [← text_contentRow front] at hrest
  refine ⟨hframed.start (by decide) (by decide), calm_append.mpr ⟨hinside content _ h, ?_⟩⟩
  exact calm_plain hframed.toLocal (by simp [Literal.delimiter]; decide)

variable (hfield : Calm marks none (cells field) [])

include hfield

theorem calm_fieldCall {term : List Char} (hterm : '<' ∉ term) (previous : Option Char)
    (behind : List Cell) : Calm marks previous (fieldCall field term) behind := by
  have hescape : '<' ∉ escape term := fun hmem =>
    (mem_of_mem_escape hmem).elim (by decide) hterm
  rw [fieldCall, calm_append, calm_append, calm_append, calm_append, calm_append]
  refine ⟨⟨calm_words hframed.toLocal [("contains", "(")] (by decide), ?_,
    calm_words hframed.toLocal [("", ",")] (by decide)⟩,
    ⟨calm_words hframed.toLocal [("", " ")] (by decide), calm_literalRow hframed hescape _ _⟩,
    calm_words hframed.toLocal [("", ")")] (by decide)⟩
  refine (calm_between hframed.toLocal ?_ (parted_of_stop (by decide) _)).mpr hfield
  intro c hc
  obtain rfl : '(' = c := by simpa using hc
  decide

theorem calm_expansion {terms : List (List Char)} (hterms : ∀ term ∈ terms, '<' ∉ term)
    (previous : Option Char) (behind : List Cell) :
    Calm marks previous (expansion field terms) behind := by
  have hcalls (previous : Option Char) (behind : List Cell) :
      Calm marks previous (fieldCalls field terms) behind := by
    induction terms generalizing previous with
    | nil => trivial
    | cons term terms ih =>
        obtain ⟨hterm, hrest⟩ := List.forall_mem_cons.mp hterms
        cases terms with
        | nil =>
            rw [fieldCalls, List.map_singleton, List.intercalate_singleton]
            exact calm_fieldCall hframed hfield hterm previous behind
        | cons next terms =>
            rw [fieldCalls_cons, calm_append, calm_append]
            exact ⟨⟨calm_fieldCall hframed hfield hterm _ _,
              calm_words hframed.toLocal [("", " "), ("or", " ")] (by decide)⟩, ih hrest _⟩
  rw [expansion, calm_append, calm_append]
  exact ⟨⟨calm_words hframed.toLocal [("", "(")] (by decide), hcalls _ _⟩,
    calm_words hframed.toLocal [("", ")")] (by decide)⟩

end Calls

end ExpandTerms

/-! ## Parentheses that stand for a part -/

namespace Query

/-- Parentheses `new` stand for `part` behind `previous`. -/
structure Opening (marks : Option Char → List Cell → Bool) (previous : Option Char)
    (part new : List Cell) : Prop where
  start : StartsPath previous
  blunt : ∀ rest, Blunt (text (part ++ rest))
  paren : ∃ rest, new = ⟨'(', .code⟩ :: rest
  last : ∃ c ∈ (text part).getLast?, StartsPath (some c)
  last_new : ∃ c ∈ (text new).getLast?, StartsPath (some c)
  calm : ∀ behind, Calm marks previous new behind

/-- Parentheses stand for parts of a row that is calm elsewhere. -/
inductive Opens (marks : Option Char → List Cell → Bool) :
    Option Char → List Cell → List Cell → Prop
  | nil {previous} : Opens marks previous [] []
  | keep {previous part row new} (hcalm : Calm marks previous part row)
      (hrest : Opens marks ((text part).getLast?.or previous) row new) :
      Opens marks previous (part ++ row) (part ++ new)
  | swap {previous part row replaced new} (hpart : Opening marks previous part replaced)
      (hrest : Opens marks ((text part).getLast?.or previous) row new) :
      Opens marks previous (part ++ row) (replaced ++ new)

namespace Opens

variable {marks : Option Char → List Cell → Bool} {previous : Option Char} {row new : List Cell}

/-- A row stays as it is, or up to the first parenthesis that stands for a part. -/
theorem first (h : Opens marks previous row new) :
    new = row ∨ ∃ kept behind rest, row = kept ++ behind ∧ new = kept ++ ⟨'(', .code⟩ :: rest ∧
      Blunt (text behind) ∧ StartsPath ((text kept).getLast?.or previous) := by
  induction h with
  | nil => exact .inl rfl
  | @keep previous part row new _ _ ih =>
      rcases ih with rfl | ⟨kept, behind, rest, rfl, rfl, hblunt, hstart⟩
      · exact .inl rfl
      · refine .inr ⟨part ++ kept, behind, rest, by simp, by simp, hblunt, ?_⟩
        rwa [text_append, List.getLast?_append, Option.or_assoc]
  | @swap previous part row replaced new hpart _ _ =>
      obtain ⟨rest, rfl⟩ := hpart.paren
      exact .inr ⟨[], part ++ row, rest ++ new, rfl, rfl, hpart.blunt row, hpart.start⟩

theorem calm_front (hframed : Framed marks) {part : List Cell}
    (h : Opens marks ((text part).getLast?.or previous) row new)
    (hcalm : Calm marks previous part row) : Calm marks previous part new := by
  rcases h.first with rfl | ⟨kept, behind, rest, rfl, rfl, hblunt, hstart⟩
  · exact hcalm
  clear h
  rw [← Option.or_assoc, ← List.getLast?_append, ← text_append] at hstart
  induction part generalizing previous with
  | nil => trivial
  | cons cell part ih =>
      have hlast : ∀ c ∈ (text (cell :: part ++ kept)).getLast?, QuoteKey.isPathChar c = false := by
        intro c hc
        rw [Option.mem_def.mp hc] at hstart
        simpa using ((startsPath_iff _).mp hstart).2
      refine ⟨?_, ih hcalm.2 ?_⟩
      · have hmark : marks previous (cell :: part ++ kept ++ ⟨'(', .code⟩ :: rest) = false :=
          hframed.paren (by simp) ⟨.inl hlast, hblunt⟩ hlast (by simpa using hcalm.1)
        simpa using hmark
      · rwa [List.cons_append, text_cons, getLast?_cons_or] at hstart

theorem calm (hframed : Framed marks) (h : Opens marks previous row new) :
    Calm marks previous new [] := by
  induction h with
  | nil => trivial
  | keep hcalm hrest ih =>
      rw [calm_append, List.append_nil]
      exact ⟨hrest.calm_front hframed hcalm, ih⟩
  | swap hpart _ ih =>
      obtain ⟨c, hc, hlast⟩ := hpart.last
      obtain ⟨d, hd, hlast'⟩ := hpart.last_new
      rw [Option.mem_def.mp hc] at ih
      rw [calm_append, Option.mem_def.mp hd]
      exact ⟨hpart.calm _, ih.previous hframed.toLocal (.inl ⟨hlast, hlast'⟩)⟩

end Opens

end Query

/-! ## Searches -/

namespace ExpandTerms

theorem isTermChar_of_isNameChar {c : Char} (h : isNameChar c = true) : isTermChar c = true := by
  have hother : "<>(),|\"".toList.all (!isNameChar ·) = true := by decide
  simp only [isTermChar, isBlank_of_isNameChar h, Bool.not_false, Bool.true_and, Bool.not_eq_true',
    ← Bool.not_eq_true, List.contains_iff_mem]
  intro hmem
  simpa [h] using List.all_eq_true.mp hother c hmem

theorem blunt_tilde {gap blanks : List Char} (hgap : Blanks gap) (hblanks : Blanks blanks)
    (rest : List Char) : Blunt (gap ++ '~' :: (blanks ++ '<' :: rest)) := by
  refine ⟨fun c hc => ?_, ?_⟩
  · rw [trimStart, List.dropWhile_append_of_pos hgap, List.dropWhile_cons_of_neg (by decide)] at hc
    obtain rfl := Option.some.inj hc
    decide
  · cases gap with
    | cons b gap =>
        refine term_of_first fun c hc => ?_
        obtain rfl := Option.some.inj hc
        exact not_isTermChar_of_isBlank (hgap b List.mem_cons_self)
    | nil =>
        rw [List.nil_append, List.dropWhile_cons_of_pos (by decide)]
        refine term_of_first fun c hc => ?_
        cases blanks with
        | nil =>
            obtain rfl := Option.some.inj hc
            decide
        | cons b blanks =>
            obtain rfl := Option.some.inj hc
            exact not_isTermChar_of_isBlank (hblanks b List.mem_cons_self)

theorem term_dots {segments : List (List Char)} (hsegments : ∀ segment ∈ segments, Segment segment)
    {behind : List Char} (h : (behind.dropWhile isTermChar).head? ≠ some '>') :
    ((dots segments ++ behind).dropWhile isTermChar).head? ≠ some '>' := by
  induction segments with
  | nil => exact h
  | cons segment segments ih =>
      obtain ⟨hsegment, hrest⟩ := List.forall_mem_cons.mp hsegments
      rw [dots_cons, List.cons_append, List.dropWhile_cons_of_pos (by decide), List.append_assoc]
      cases hsegment with
      | @name c name hstart hname =>
          have hterm : ∀ d ∈ c :: name, isTermChar d = true := List.forall_mem_cons.mpr
            ⟨isTermChar_of_isNameChar (isNameChar_of_isNameStart hstart),
              fun d hd => isTermChar_of_isNameChar (hname d hd)⟩
          rw [List.dropWhile_append_of_pos hterm]
          exact ih hrest
      | quoted hkey =>
          refine term_of_first fun d hd => ?_
          obtain rfl := Option.some.inj hd
          decide

theorem blunt_field {field behind : List Char} (hfield : FieldPath field) (h : Blunt behind) :
    Blunt (field ++ behind) := by
  cases hfield with
  | @intro c name segments hstart hname hsegments =>
      have hc := isNameChar_of_isNameStart hstart
      refine ⟨next_of_isNameChar hc _, ?_⟩
      rw [List.cons_append, List.dropWhile_cons_of_pos (isTermChar_of_isNameChar hc),
        List.append_assoc,
        List.dropWhile_append_of_pos fun d hd => isTermChar_of_isNameChar (hname d hd)]
      exact term_dots hsegments h.term

theorem IsSearch.blunt {field content found : List Char} (h : IsSearch field content found)
    (rest : List Char) : Blunt (found ++ rest) := by
  obtain ⟨hfield, -, gap, blanks, hgap, hblanks, rfl⟩ := h
  have hbehind := blunt_field hfield (blunt_tilde hgap hblanks (content ++ '>' :: rest))
  simpa using hbehind

theorem IsSearch.getLast? {field content found : List Char} (h : IsSearch field content found) :
    found.getLast? = some '>' := by
  obtain ⟨c, middle, htext, -⟩ := h.ends
  rw [htext, ← List.cons_append, List.getLast?_concat]

theorem IsSearch.parted {field content : List Char} {row more : List Cell}
    (h : IsSearch field content (field ++ text more)) (rest : List Cell) :
    Parted row (more ++ rest) := by
  obtain ⟨-, -, gap, blanks, hgap, hblanks, htext⟩ := h
  obtain hmore : text more = gap ++ '~' :: (blanks ++ '<' :: (content ++ ['>'])) := by
    simpa using htext
  have hbehind : text (more ++ rest) =
      gap ++ '~' :: (blanks ++ '<' :: (content ++ '>' :: text rest)) := by
    rw [text_append, hmore]
    simp
  refine ⟨.inr fun c hc => ?_, hbehind ▸ blunt_tilde hgap hblanks _⟩
  rw [hbehind] at hc
  cases gap with
  | nil =>
      obtain rfl := Option.some.inj hc
      decide
  | cons b gap =>
      obtain rfl := Option.some.inj hc
      exact not_isPathChar_of_isBlank (hgap b List.mem_cons_self)

theorem not_mem_terms {content term : List Char} (hcontent : ∀ c ∈ content, c ≠ '<' ∧ c ≠ '>')
    (h : term ∈ terms content) : '<' ∉ term := fun hmem =>
  (mem_of_mem_termsFrom (List.mem_of_mem_filter h) '<' hmem).elim (by simp) fun hmem =>
    (hcontent '<' hmem).1 rfl

/-- A search that can be expanded for good behind `front`: it lies within its stage, neither it nor
its field leaves a literal open, and no word or path in front of it goes on with it. -/
structure Tidy (front found : List Char) : Prop where
  closed : Closed found
  whole : ∀ cell ∈ cells found, cell.isSeparator = false
  field : ∀ field ∈ path? found, Closed field
  start : StartsPath front.getLast?

instance (front found : List Char) : Decidable (Tidy front found) :=
  decidable_of_iff (_ ∧ _ ∧ _ ∧ _)
    ⟨fun h => ⟨h.1, h.2.1, h.2.2.1, h.2.2.2⟩, fun h => ⟨h.closed, h.whole, h.field, h.start⟩⟩

/-- The row is calm where the patch keeps it, and so are the fields of the searches. -/
def Spares (marks : Option Char → List Cell → Bool) : Option Char → List Cell → Patch → Prop
  | _, _, [] => True
  | previous, row, .keep part :: patch =>
    Calm marks previous (row.take part.length) (row.drop part.length) ∧
      Spares marks ((text (row.take part.length)).getLast?.or previous) (row.drop part.length) patch
  | previous, row, .change found _ :: patch =>
    (∀ field ∈ path? found, Calm marks previous (row.take field.length) (row.drop field.length)) ∧
      Spares marks ((text (row.take found.length)).getLast?.or previous) (row.drop found.length)
        patch

instance decidableSpares (marks : Option Char → List Cell → Bool) :
    ∀ previous row patch, Decidable (Spares marks previous row patch)
  | _, _, [] => .isTrue trivial
  | previous, row, .keep part :: patch =>
    have := decidableSpares marks ((text (row.take part.length)).getLast?.or previous)
      (row.drop part.length) patch
    inferInstanceAs (Decidable (_ ∧ _))
  | previous, row, .change found _ :: patch =>
    have := decidableSpares marks ((text (row.take found.length)).getLast?.or previous)
      (row.drop found.length) patch
    inferInstanceAs (Decidable (_ ∧ _))

theorem calm_split {marks : Option Char → List Cell → Bool} {previous : Option Char}
    {row : List Cell} (h : Calm marks previous row []) (n : Nat) :
    Calm marks previous (row.take n) (row.drop n) ∧
      Calm marks ((text (row.take n)).getLast?.or previous) (row.drop n) [] := by
  rwa [← List.take_append_drop n row, calm_append, List.append_nil] at h

theorem spares_of_calm {marks : Option Char → List Cell → Bool} {previous : Option Char}
    {row : List Cell} (h : Calm marks previous row []) (patch : Patch) :
    Spares marks previous row patch := by
  induction patch generalizing previous row with
  | nil => trivial
  | cons piece patch ih =>
      cases piece with
      | keep part =>
          obtain ⟨hpart, hrest⟩ := calm_split h part.length
          exact ⟨hpart, ih hrest⟩
      | change found replacement =>
          exact ⟨fun field _ => (calm_split h field.length).1, ih (calm_split h found.length).2⟩

section Opening

variable {marks : Option Char → List Cell → Bool}

theorem Tidy.opening (hframed : Framed marks) {front : List Char} {part row : List Cell}
    {field content replacement : List Char} (h : Tidy front (text part))
    (hsearch : IsSearch field content (text part)) (halone : cells (text part) = part)
    (hexpand : expand? field (terms content) = some replacement)
    (hcalm : Calm marks front.getLast? ((part ++ row).take field.length)
      ((part ++ row).drop field.length)) :
    Opening marks front.getLast? part (cells replacement) := by
  obtain ⟨rest, hfound, hstops, hpath⟩ := hsearch.path?
  have hcells := (settles_expand? hsearch.field_path (h.field field hpath) hexpand).cells_eq
  obtain ⟨more, hmore, hpart⟩ : ∃ more, text more = rest ∧ part = cells field ++ more := by
    refine ⟨(scan field).final.paint rest, Scanner.text_paint _ rest, ?_⟩
    rw [← halone, hfound]
    exact Scanner.paint_cut _ field fun c hc => (hstops c hc).1
  have hlast (terms : List (List Char)) : (text (expansion field terms)).getLast? = some ')' := by
    rw [expansion, text_append]
    exact List.getLast?_concat
  rw [hcells]
  refine ⟨h.start, fun rest => ?_, ⟨_, rfl⟩, ⟨'>', hsearch.getLast?, by decide⟩,
    ⟨')', hlast _, by decide⟩, calm_expansion hframed ?_
      (fun term hterm => not_mem_terms hsearch.content_free hterm) _⟩
  · rw [text_append]
    exact hsearch.blunt _
  · rw [hfound, ← hmore] at hsearch
    have hsize : (cells field).length = field.length := by
      rw [← List.length_map, ← text, text_cells]
    rw [hpart, List.append_assoc, List.take_left' hsize, List.drop_left' hsize] at hcalm
    exact (calm_between hframed.toLocal h.start (hsearch.parted row)).mp hcalm

/-- Following the pass, calls in parentheses stand for searches. -/
theorem Expands.opens (hframed : Framed marks) {previous : Option Char} {row new : List Cell}
    {patch : Patch} (h : Expands previous row patch new) {s : Scanner} (hs : s.Paints row)
    {front : List Char} (hprevious : previous = front.getLast?)
    (htidy : Patch.Every Tidy front patch) (hspares : Spares marks previous row patch) :
    Opens marks previous row new := by
  have htake (part row : List Cell) : (part ++ row).take (text part).length = part :=
    List.take_left' (by simp [text])
  have hdrop (part row : List Cell) : (part ++ row).drop (text part).length = row :=
    List.drop_left' (by simp [text])
  have hlast {part : List Cell} {field content : List Char} (h : IsSearch field content (text part))
      (previous : Option Char) : (text part).getLast?.or previous = (text part).getLast? := by
    rw [h.getLast?]
    rfl
  induction h generalizing s front with
  | nil => exact .nil
  | @pass previous cell row patch new hrest ih =>
      exact .keep (show Calm marks _ [cell] row from hspares.1)
        (ih (Scanner.paints_cons.mp hs).2 (by simp) htidy hspares.2)
  | @leave previous part row patch new field content hsearch hrest ih =>
      obtain ⟨hpart, hspares⟩ := hspares
      rw [htake, hdrop] at hpart
      rw [htake, hdrop, hlast hsearch] at hspares
      refine .keep hpart ?_
      rw [hlast hsearch]
      refine ih (Scanner.paints_append.mp hs).2 ?_ htidy hspares
      rw [List.getLast?_append, hlast hsearch]
  | @expand previous part row patch new field content replacement hsearch hexpand hcode _ hrest ih =>
      subst hprevious
      obtain ⟨hfield, hspares⟩ := hspares
      rw [htake, hdrop, hlast hsearch] at hspares
      have halone := hsearch.alone (show s.Paints ([] ++ (part ++ row)) from hs) hcode
      obtain ⟨-, -, -, hpath⟩ := hsearch.path?
      refine .swap (htidy.1.opening hframed hsearch halone hexpand (hfield field hpath)) ?_
      rw [hlast hsearch]
      refine ih (Scanner.paints_append.mp hs).2 ?_ htidy.2 hspares
      rw [List.getLast?_append, hlast hsearch]

end Opening

theorem calm_after {query : List Char} (htidy : ∀ front found replacement back,
      (patch query).Rewrites front found replacement back → Tidy front found)
    {marks : Option Char → List Cell → Bool} (hframed : Framed marks)
    (hspares : Spares marks none (cells query) (patch query)) :
    Calm marks none (cells (patch query).after) [] := by
  obtain ⟨new, hnew, hcells⟩ := cells_after_patch fun found replacement hmem => by
    obtain ⟨front, back, hrewrites⟩ := Patch.exists_rewrites hmem
    have htidy := htidy front found replacement back hrewrites
    exact ⟨(portable_of_rewrites hrewrites).1 htidy.closed,
      (replacement_of_rewrites hrewrites htidy.whole htidy.field).1⟩
  rw [hcells]
  have hopens := hnew.opens hframed (paints_cells query) rfl (Patch.every_iff.mpr htidy) hspares
  exact hopens.calm hframed

end ExpandTerms

end OpalRepair
