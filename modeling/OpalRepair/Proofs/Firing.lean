import Mathlib
import OpalRepair.Proofs.Aligning
import OpalRepair.Proofs.Counting.Section
import OpalRepair.Proofs.Dropping.Exact
import OpalRepair.Proofs.Rewritten
import OpalRepair.Proofs.Sorting.Written

/-!
# Firing and changing

A pass decides that it fires by the changes it has collected, and builds its text by other means.
What is written for a fragment departs from the fragment at some character, and the text with it.
Where stages are dropped, the text gets shorter.

Main statement: `fired_iff_changed`.
-/

namespace OpalRepair

open Query Text Vocabulary

/-! ## Texts that depart from each other -/

def Text.Diverge (old new : List Char) : Prop := ¬ old <+: new ∧ ¬ new <+: old

namespace Text.Diverge

variable {old new front : List Char}

theorem ne (h : Diverge old new) : new ≠ old := by
  rintro rfl
  exact h.1 List.prefix_rfl

theorem append (h : Diverge old new) (back back' : List Char) :
    Diverge (old ++ back) (new ++ back') := by
  constructor
  · intro hpre
    exact (List.prefix_or_prefix_of_prefix ((List.prefix_append _ _).trans hpre)
      (List.prefix_append _ _)).elim h.1 h.2
  · intro hpre
    exact (List.prefix_or_prefix_of_prefix ((List.prefix_append _ _).trans hpre)
      (List.prefix_append _ _)).elim h.2 h.1

theorem behind (front : List Char) (h : Diverge old new) :
    Diverge (front ++ old) (front ++ new) := by
  rwa [Diverge, List.prefix_append_right_inj, List.prefix_append_right_inj]

theorem cons (c : Char) (h : Diverge old new) : Diverge (c :: old) (c :: new) := h.behind [c]

theorem of_ne {c d : Char} (h : c ≠ d) (old new : List Char) : Diverge (c :: old) (d :: new) := by
  refine ⟨fun hpre => h ?_, fun hpre => h ?_⟩
  · exact (List.cons_prefix_cons.mp hpre).1
  · exact (List.cons_prefix_cons.mp hpre).1.symm

end Text.Diverge

theorem Patch.diverge {patch : Patch}
    (h : ∀ found replacement, .change found replacement ∈ patch → Diverge found replacement)
    (hchanges : patch.changes ≠ []) : Diverge patch.before patch.after := by
  induction patch with
  | nil => exact absurd rfl hchanges
  | cons piece patch ih =>
      cases piece with
      | keep text =>
          exact (ih (fun found replacement hmem => h found replacement (by simp [hmem]))
            hchanges).behind text
      | change found replacement => exact (h found replacement (by simp)).append _ _

theorem Pass.changed_ofPatch {patch : List Char → Patch} {query : String}
    (hbefore : (patch query.toList).before = query.toList)
    (h : ∀ found replacement, .change found replacement ∈ patch query.toList →
      Diverge found replacement) {name rationale : String} {context : Context}
    (hfired : ((ofPatch name rationale patch).apply context query).fired = true) :
    ((ofPatch name rationale patch).apply context query).query ≠ query := by
  have hdiverge := Patch.diverge h ((fired_ofPatch ..).mp hfired)
  rw [hbefore] at hdiverge
  intro hsame
  exact hdiverge.ne ((String.toList_ofList ..).symm.trans (congrArg String.toList hsame))

/-! ## Keys and searches -/

theorem QuoteKey.diverge {query found replacement : List Char}
    (h : .change found replacement ∈ patch query) : Diverge found replacement := by
  obtain ⟨front, back, hrewrites⟩ := Patch.exists_rewrites h
  obtain ⟨parent, key, rfl, rfl, hattribute, -⟩ := of_rewrites hrewrites
  obtain ⟨last, hlast, -⟩ := hattribute.key_last
  cases key with
  | nil => simp at hlast
  | cons c key =>
      have hquote : c ≠ '"' := by
        rintro rfl
        exact absurd (hattribute.key_path '"' (by simp)) (by decide)
      rw [quoted]
      simp only [List.append_assoc]
      exact ((Diverge.of_ne hquote _ _).cons '.').behind parent

theorem ExpandTerms.diverge {query found replacement : List Char}
    (h : .change found replacement ∈ patch query) : Diverge found replacement := by
  obtain ⟨front, back, hrewrites⟩ := Patch.exists_rewrites h
  obtain ⟨field, content, hsearch, hexpand, -⟩ := of_rewrites hrewrites
  obtain ⟨c, part, rfl, hname⟩ := hsearch.ends
  obtain ⟨-, rfl⟩ := ends_of_expand? hexpand
  refine Diverge.of_ne ?_ _ _
  rintro rfl
  exact absurd hname (by decide)

/-! ## Stages -/

theorem Patch.of_mem_ofStages {mend? : Stage → Option (List Char)} {layout : Layout}
    {found replacement : List Char} (h : .change found replacement ∈ ofStages mend? layout) :
    ∃ stage ∈ layout.stages, found = stage.text ∧ mend? stage = some replacement := by
  have hpieces := (List.mem_cons.mp h).resolve_left (by simp)
  obtain ⟨stage, hstage, hpiece⟩ := List.mem_flatMap.mp hpieces
  rw [Stage.pieces] at hpiece
  cases hmend : mend? stage with
  | none => simp [hmend] at hpiece
  | some new =>
      obtain ⟨rfl, rfl⟩ : found = stage.text ∧ replacement = new := by simpa [hmend] using hpiece
      exact ⟨stage, hstage, rfl, hmend⟩

theorem Query.Stage.Trimmed.diverge {stage : Stage} (h : stage.Trimmed) {verb : String}
    (hverb : stage.verb? = some verb) {word : List Char} (hword : Diverge verb.toList word)
    (back back' : List Char) : Diverge (stage.text ++ back) (word ++ back') := by
  have hsplit : stage.text = verb.toList ++ stage.text.dropWhile isNameChar := by
    rw [← (h.text_of_verb? hverb).1, List.takeWhile_append_dropWhile]
  rw [hsplit, List.append_assoc]
  exact hword.append _ _

theorem diverge_verbs : ∀ verb ∈ "filter" :: aggregationVerbs, ∀ word ∈ ["align ", "make_col "],
    Diverge verb.toList word.toList := by
  unfold Diverge
  decide

namespace AlignMetric

theorem exists_align {stage : Stage} {replacement : List Char}
    (h : mendStage? stage = some replacement) :
    ∃ verb ∈ "filter" :: aggregationVerbs, stage.verb? = some verb ∧
      ∃ rest, replacement = "align ".toList ++ rest := by
  obtain ⟨selection, -, h⟩ := Option.bind_eq_some_iff.mp h
  obtain ⟨call, -, h⟩ := Option.bind_eq_some_iff.mp h
  obtain ⟨verb, hverb, h⟩ := Option.bind_eq_some_iff.mp h
  have halign (function rest : List Char) :
      ∃ behind, alignStage function call ++ rest = "align ".toList ++ behind := by
    rw [alignStage_eq]
    simp only [List.append_assoc]
    exact ⟨_, rfl⟩
  split at h
  · rename_i hfilter
    obtain ⟨-, rfl⟩ := alignFilter?_eq_some h
    simp only [List.append_assoc]
    exact ⟨verb, by simp [hfilter], hverb, halign _ _⟩
  · split at h
    · rename_i haggregates
      obtain ⟨front, name, rest, -, -, -, rfl⟩ := alignAggregate?_eq_some h
      simp only [List.append_assoc]
      exact ⟨verb, List.mem_cons_of_mem _ (List.contains_iff_mem.mp haggregates), hverb, halign _ _⟩
    · simp at h

theorem diverge {query found replacement : List Char}
    (h : .change found replacement ∈ patch query) : Diverge found replacement := by
  simp only [patch] at h
  split at h
  · simp at h
  · obtain ⟨stage, hstage, rfl, hmend⟩ := Patch.of_mem_ofStages h
    obtain ⟨verb, hmem, hverb, rest, rfl⟩ := exists_align hmend
    have htrimmed := (Layout.apart (cells query)).trimmed stage hstage
    simpa using htrimmed.diverge hverb (diverge_verbs verb hmem "align " (by simp)) [] rest

end AlignMetric

/-! ## Sort keys -/

namespace SortCall

theorem not_mark_of_direction {keyword : List Char}
    (h : keyword.map foldCase = "asc".toList ∨ keyword.map foldCase = "desc".toList) :
    ∀ c ∈ keyword.map Char.toLower ++ ['('], c ≠ '.' ∧ isBlank c = false := by
  rcases direction_cases h with h | h | h | h <;> rw [h] <;> simp <;> decide

theorem Spells.diverge {key direction field : List Char} (h : Spells key direction field) :
    Diverge key (directed direction field) := by
  cases h with
  | minus => exact Diverge.of_ne (by decide) _ _
  | @keyword _ blanks keyword hfield hne hblanks hkeyword =>
      -- The first name of the field ends at a dot or a blank, the direction at a parenthesis.
      cases hfield with
      | @intro c name segments hstart hname hsegments =>
          obtain ⟨mark, rest, hrest, hmark⟩ : ∃ mark rest,
              dots segments ++ (blanks ++ keyword) = mark :: rest ∧
                (mark = '.' ∨ isBlank mark = true) := by
            cases segments with
            | nil =>
                obtain ⟨b, blanks, rfl⟩ := List.exists_cons_of_ne_nil hne
                exact ⟨b, blanks ++ keyword, rfl, .inr (hblanks b (by simp))⟩
            | cons segment segments => exact ⟨'.', _, rfl, .inl rfl⟩
          have hdiverge : Diverge (c :: name ++ [mark]) (keyword.map Char.toLower ++ ['(']) := by
            constructor
            · intro hpre
              obtain ⟨hdot, hblank⟩ := not_mark_of_direction hkeyword mark
                (hpre.subset (by simp))
              rcases hmark with hmark | hmark
              · exact hdot hmark
              · simp [hblank] at hmark
            · intro hpre
              have hparen : '(' ∈ c :: name ++ [mark] := hpre.subset (by simp)
              have hchars : ∀ d ∈ c :: name, isNameChar d = true :=
                List.forall_mem_cons.mpr ⟨isNameChar_of_isNameStart hstart, hname⟩
              rcases List.mem_append.mp hparen with hparen | hparen
              · exact absurd (hchars _ hparen) (by decide)
              · obtain rfl := List.mem_singleton.mp hparen
                revert hmark
                decide
          have hkey : c :: (name ++ dots segments) ++ (blanks ++ keyword) =
              (c :: name ++ [mark]) ++ rest := by
            simp [hrest]
          rw [hkey, directed, List.append_assoc (_ ++ ['('])]
          exact hdiverge.append _ _

def written (key : List Char) : List Char := (normalize? key).getD key

def Firm (c : Char) : Prop := isBlank c = false ∧ c ≠ ','

theorem firm_written {key : List Char} (h : ∃ c ∈ key.head?, Firm c) :
    ∃ c ∈ (written key).head?, Firm c := by
  rw [written]
  cases hnormalize : normalize? key with
  | none => exact h
  | some new =>
      obtain ⟨direction, field, hspells, rfl⟩ := normalize?_eq_some.mp hnormalize
      obtain ⟨c, rest, rfl, hblank, -⟩ := hspells.direction_head
      exact ⟨c, rfl, hblank, (hspells.direction_bland c (by simp)).2⟩

section Keys

variable {query : List Char} {before row after : List Cell} {cell : Cell}

theorem firm_of_whole (hcells : cells query = before ++ cell :: (row ++ after))
    (hcell : cell.isLiteral = false) (hwhole : Whole 0 row) :
    ∀ item ∈ listItems row, ∃ c ∈ (text item).head?, Firm c := by
  rcases blank_or_item hwhole with
    ⟨-, hnil⟩ | ⟨blanks, item, spaces, rfl, hblanks, -, ⟨⟨first, hfirst, hblank⟩, -⟩, hone, -, hlist⟩
  · simp [hnil]
  obtain ⟨item, rfl⟩ : ∃ rest, item = first :: rest := List.head?_eq_some_iff.mp hfirst
  rw [hlist, List.forall_mem_singleton]
  refine ⟨first.char, rfl, hblank, fun hcomma => (whole_cons.mp hone).1 ⟨?_, rfl⟩⟩
  -- A comma that opens an item would belong to a literal, but code goes on up to it.
  have hpaint : ({} : Scanner).paint query =
      before ++ cell :: ((blanks ++ [first]) ++ (item ++ spaces ++ after)) := by
    exact hcells.trans (by simp)
  have hplain : ∀ other ∈ blanks ++ [first], other.char ≠ '"' ∧ other.char ≠ '\'' ∧
      other.char ≠ '/' := by
    intro other hother
    rcases List.mem_append.mp hother with hother | hother
    · obtain ⟨hdouble, hsingle, hslash, -⟩ := plain_of_isBlank (hblanks other hother)
      exact ⟨hdouble, hsingle, hslash⟩
    · rw [List.mem_singleton.mp hother, hcomma]
      decide
  have hcode := Scanner.paint_behind_code hpaint hcell hplain first (by simp)
  simp [Cell.isCode, hcomma, hcode]

theorem firm_of_mem_listItems (hcells : cells query = before ++ cell :: (row ++ after))
    (hcell : cell.isLiteral = false) :
    ∀ item ∈ listItems row, ∃ c ∈ (text item).head?, Firm c := by
  induction row using cut_induction generalizing before cell with
  | whole row hwhole => exact firm_of_whole hcells hcell hwhole
  | cut a comma b ha hbalance hcomma ih =>
      have hfront : cells query = before ++ cell :: (a ++ (comma :: b ++ after)) := by
        simpa using hcells
      have hback : cells query = (before ++ cell :: a) ++ comma :: (b ++ after) := by
        simpa using hcells
      rw [listItems_cut ha hbalance hcomma, List.forall_mem_append]
      refine ⟨firm_of_whole hfront hcell ha, ih hback ?_⟩
      simpa using (Bool.and_eq_true_iff.mp hcomma).2

theorem exists_intercalate (key : List Char) (keys : List (List Char)) :
    ∃ rest, List.intercalate ", ".toList ((key :: keys).map written) = written key ++ rest := by
  cases keys with
  | nil => exact ⟨[], by simp⟩
  | cons next keys =>
      rw [List.map_cons, List.map_cons, List.intercalate_cons_cons, List.append_assoc]
      exact ⟨_, rfl⟩

theorem firm_intercalate {keys : List (List Char)} (hne : keys ≠ [])
    (h : ∀ key ∈ keys, ∃ c ∈ key.head?, Firm c) :
    ∃ c ∈ (List.intercalate ", ".toList (keys.map written)).head?, Firm c := by
  obtain ⟨key, keys, rfl⟩ := List.exists_cons_of_ne_nil hne
  obtain ⟨c, hc, hfirm⟩ := firm_written (h key (by simp))
  obtain ⟨rest, hrest⟩ := exists_intercalate key keys
  rw [hrest]
  exact ⟨c, List.mem_head?_append_of_mem_head? hc, hfirm⟩

theorem diverge_of_blanks {blanks old new : List Char} (hblanks : Blanks blanks)
    (hold : ∃ c ∈ old.head?, isBlank c = false) (hnew : ∃ c ∈ new.head?, isBlank c = false)
    (h : Diverge old new) : Diverge (blanks ++ old) (' ' :: new) := by
  obtain ⟨c, hc, hold⟩ := hold
  obtain ⟨d, hd, hnew⟩ := hnew
  obtain ⟨old, rfl⟩ := List.head?_eq_some_iff.mp hc
  obtain ⟨new, rfl⟩ := List.head?_eq_some_iff.mp hd
  have hne {b e : Char} (hb : isBlank b = true) (he : isBlank e = false) : b ≠ e := by
    rintro rfl
    simp [hb] at he
  match blanks, hblanks with
  | [], _ => exact Diverge.of_ne (hne (by decide) hold).symm _ _
  | b :: blanks, hblanks =>
      by_cases hb : b = ' '
      · rw [hb]
        refine Diverge.cons ' ' ?_
        cases blanks with
        | nil => exact h
        | cons b' blanks => exact Diverge.of_ne (hne (hblanks b' (by simp)) hnew) _ _
      · exact Diverge.of_ne hb _ _

theorem diverge_written {key : List Char} (h : (normalize? key).isSome = true) :
    Diverge key (written key) := by
  obtain ⟨new, hnew⟩ := Option.isSome_iff_exists.mp h
  obtain ⟨direction, field, hspells, rfl⟩ := normalize?_eq_some.mp hnew
  rw [written, hnew]
  exact hspells.diverge

theorem diverge_behind {blanks key spaces old new : List Char} (hblanks : Blanks blanks)
    (hspaces : Blanks spaces) (hkey : ∃ c ∈ key.head?, Firm c) (h : Diverge old new) :
    Diverge (blanks ++ (key ++ (spaces ++ ',' :: old))) (' ' :: (key ++ ',' :: new)) := by
  obtain ⟨c, hc, hfirm⟩ := hkey
  have hhead (rest : List Char) : ∃ c ∈ (key ++ rest).head?, isBlank c = false :=
    ⟨c, List.mem_head?_append_of_mem_head? hc, hfirm.1⟩
  refine diverge_of_blanks hblanks (hhead _) (hhead _) (Diverge.behind key ?_)
  cases spaces with
  | nil => exact h.cons ','
  | cons b spaces =>
      refine Diverge.of_ne ?_ _ _
      rintro rfl
      exact absurd (hspaces ',' (by simp)) (by decide)

theorem diverge_keys (hcells : cells query = before ++ cell :: (row ++ after))
    (hcell : cell.isLiteral = false)
    (hmended : ∃ key ∈ (listItems row).map text, (normalize? key).isSome = true) :
    Diverge (text row)
      (' ' :: List.intercalate ", ".toList (((listItems row).map text).map written)) := by
  have hblank {blanks : List Cell} (h : ∀ cell ∈ blanks, isBlank cell.char = true) :
      Blanks (text blanks) := by
    simpa [Blanks, text] using h
  -- A mended key at the start of a list decides.
  have hfirst {blanks item behind : List Cell} {items : List (List Char)}
      (hblanks : ∀ cell ∈ blanks, isBlank cell.char = true)
      (hfirm : ∃ c ∈ (text item).head?, Firm c) (hitem : (normalize? (text item)).isSome = true) :
      Diverge (text (blanks ++ item ++ behind))
        (' ' :: List.intercalate ", ".toList ((text item :: items).map written)) := by
    obtain ⟨rest, hrest⟩ := exists_intercalate (text item) items
    obtain ⟨d, hd, hnew⟩ := firm_written hfirm
    obtain ⟨c, hc, hold⟩ := hfirm
    rw [hrest, text_append, text_append, List.append_assoc]
    exact diverge_of_blanks (hblank hblanks) ⟨c, List.mem_head?_append_of_mem_head? hc, hold.1⟩
      ⟨d, List.mem_head?_append_of_mem_head? hd, hnew.1⟩ ((diverge_written hitem).append _ _)
  induction row using cut_induction generalizing before cell with
  | whole row hwhole =>
      have hfirm := firm_of_whole hcells hcell hwhole
      rcases blank_or_item hwhole with
        ⟨-, hnil⟩ | ⟨blanks, item, spaces, rfl, hblanks, -, -, -, -, hlist⟩
      · simp [hnil] at hmended
      · rw [hlist] at hmended hfirm ⊢
        exact hfirst hblanks (hfirm item (by simp)) (by simpa using hmended)
  | cut a comma b ha hbalance hcomma ih =>
      have hfront : cells query = before ++ cell :: (a ++ (comma :: b ++ after)) := by
        simpa using hcells
      have hback : cells query = (before ++ cell :: a) ++ comma :: (b ++ after) := by
        simpa using hcells
      obtain ⟨hchar, hcode⟩ : comma.char = ',' ∧ comma.isLiteral = false := by
        simpa [Cell.isCode] using hcomma
      have hfirm := firm_of_whole hfront hcell ha
      have hrest := firm_of_mem_listItems hback hcode
      rw [listItems_cut ha hbalance hcomma] at hmended ⊢
      rcases blank_or_item ha with
        ⟨hblanks, hnil⟩ | ⟨blanks, item, spaces, rfl, hblanks, hspaces, -, -, -, hlist⟩
      · -- An empty item is dropped, but its comma stands where a key is written.
        rw [hnil, List.nil_append] at hmended ⊢
        have hne : (listItems b).map text ≠ [] := by
          rintro hnil
          simp [hnil] at hmended
        obtain ⟨c, hc, hnew⟩ := firm_intercalate hne (by simpa using hrest)
        rw [text_append, text_cons, hchar]
        refine diverge_of_blanks (hblank hblanks) ⟨',', rfl, by decide⟩ ⟨c, hc, hnew.1⟩ ?_
        obtain ⟨new, hnew'⟩ := List.head?_eq_some_iff.mp hc
        rw [hnew']
        exact Diverge.of_ne hnew.2.symm _ _
      · rw [hlist, List.singleton_append, List.map_cons] at hmended ⊢
        rw [hlist, List.forall_mem_singleton] at hfirm
        by_cases hitem : (normalize? (text item)).isSome = true
        · rw [List.append_assoc _ spaces]
          exact hfirst hblanks hfirm hitem
        · -- This key stays, so that one behind the comma is mended.
          have hmended : ∃ key ∈ (listItems b).map text, (normalize? key).isSome = true := by
            simpa [hitem] using hmended
          have hkept : written (text item) = text item := by
            rw [written, Option.not_isSome_iff_eq_none.mp hitem, Option.getD_none]
          obtain ⟨next, items, hitems⟩ : ∃ next items, (listItems b).map text = next :: items := by
            refine List.exists_cons_of_ne_nil fun hnil => ?_
            simp [hnil] at hmended
          have hbehind := ih hback hcode hmended
          rw [hitems] at hbehind ⊢
          rw [List.map_cons, List.map_cons, List.intercalate_cons_cons, hkept]
          simpa [hchar] using diverge_behind (hblank hblanks) (hblank hspaces) hfirm hbehind

end Keys

theorem exists_row_of_sort {query : List Char} {place : List Cell × Stage}
    (hplace : place ∈ places query) (hverb : place.2.verb? = some "sort") :
    ∃ before last row after, cells query = before ++ last :: (row ++ after) ∧
      last.isLiteral = false ∧ keys place.2 = (listItems row).map text ∧
      place.2.text = "sort".toList ++ text row := by
  obtain ⟨first, rest, hbody, -, hcode⟩ := exists_first_of_verb? hplace hverb
  obtain ⟨after, hcells⟩ := cells_of_mem_places hplace
  have hname := ((trimmed_of_mem_places hplace).text_of_verb? hverb).1
  have hsplit : text place.2.body =
      's' :: ("or".toList ++ 't' :: (text place.2.body).dropWhile isNameChar) := by
    have hsplit := List.takeWhile_append_dropWhile (p := isNameChar) (l := text place.2.body)
    rw [Stage.text] at hname
    rw [hname] at hsplit
    exact hsplit.symm
  rw [hbody] at hsplit
  obtain ⟨hfirst, hrest⟩ := List.cons.inj hsplit
  obtain ⟨name, row, rfl, hnameText, hrow⟩ := row_of_text hrest
  obtain ⟨last, row, rfl, hlast, -⟩ := row_of_text_cons hrow
  have hchars : ∀ cell ∈ name ++ [last], isNameChar cell.char = true := by
    have htext : ∀ c ∈ text (name ++ [last]), isNameChar c = true := by
      simp [hnameText, hlast]
      decide
    exact fun cell hcell => htext cell.char (List.mem_map_of_mem hcell)
  have hverbCells : cells query = place.1 ++ first :: ((name ++ [last]) ++ (row ++ after)) := by
    simpa [hbody] using hcells
  refine ⟨place.1 ++ first :: name, last, row, after, by simpa using hverbCells,
    Bytes.CallAt.isLiteral_of_name hverbCells hcode hchars last (by simp), ?_, ?_⟩
  · have hlength : (first :: name ++ [last]).length = 4 := by
      simpa [text] using congrArg List.length hnameText
    have hdrop : (first :: (name ++ last :: row)).drop 4 = row := by
      rw [← hlength]
      simp
    rw [keys, hbody, hdrop]
  · simp [Stage.text, hbody, hfirst, hnameText, hlast]

theorem diverge {query found replacement : List Char}
    (h : .change found replacement ∈ patch query) : Diverge found replacement := by
  obtain ⟨stage, hstage, rfl, hmend⟩ := Patch.of_mem_ofStages h
  obtain ⟨hverb, hmended, rfl⟩ := mendStage?_eq_some hmend
  rw [← map_snd_places] at hstage
  obtain ⟨place, hplace, rfl⟩ := List.mem_map.mp hstage
  obtain ⟨before, last, row, after, hcells, hcode, hkeys, htext⟩ :=
    exists_row_of_sort hplace (by simpa [Stage.hasVerb] using hverb)
  rw [hkeys] at hmended ⊢
  rw [htext]
  exact (diverge_keys hcells hcode hmended).behind "sort".toList

end SortCall

/-! ## Dropped stages -/

namespace DropTimeFilter

theorem length_join_cons (tail : List Cell) (stage : Stage) (stages : List Stage) :
    (join tail (stage :: stages)).length ≤ stage.cells.length + (join tail stages).length := by
  cases stages with
  | nil => simp [join, Stage.cells]
  | cons next stages => simp [join_cons]

theorem length_join {stages : List Stage} (hne : stages ≠ [])
    (hbody : ∀ stage ∈ stages, stage.body ≠ []) (keep : Stage → Bool) :
    (join (lastGap stages) (stages.filter keep)).length + (stages.filter (!keep ·)).length ≤
      (stages.flatMap Stage.cells).length := by
  induction stages with
  | nil => exact absurd rfl hne
  | cons stage stages ih =>
      have hpos := List.length_pos_iff.mpr (hbody stage (by simp))
      have hcells : stage.cells.length = stage.body.length + stage.gap.length := List.length_append
      cases stages with
      | nil =>
          cases hkeep : keep stage with
          | false => simp [hkeep, join, lastGap, hcells]; omega
          | true => simp [hkeep, join, lastGap, hcells]
      | cons next stages =>
          have hrest := ih (by simp) fun other hother => hbody other (by simp [hother])
          rw [lastGap_cons stage (by simp)]
          generalize next :: stages = stages at hrest ⊢
          rw [List.flatMap_cons, List.length_append]
          cases hkeep : keep stage with
          | false =>
              rw [List.filter_cons_of_neg (by simp [hkeep]),
                List.filter_cons_of_pos (by simp [hkeep]), List.length_cons]
              omega
          | true =>
              have hcons := length_join_cons (lastGap stages) stage (stages.filter keep)
              rw [List.filter_cons_of_pos hkeep, List.filter_cons_of_neg (by simp [hkeep])]
              omega

theorem length_remaining {query : List Char} (h : (layout query).stages.filter isRedundant ≠ []) :
    (remaining (layout query)).length < query.length := by
  have hne : (layout query).stages ≠ [] := by
    rintro hnil
    simp [hnil] at h
  have hbody : ∀ stage ∈ (layout query).stages, stage.body ≠ [] := by
    intro stage hstage hnil
    obtain ⟨cell, hcell, -⟩ := ((Layout.apart (cells query)).trimmed stage hstage).head
    simp [hnil] at hcell
  have hjoin := length_join hne hbody (!isRedundant ·)
  have hpos : 0 < ((layout query).stages.filter (isRedundant ·)).length := List.length_pos_iff.mpr h
  have hquery : query.length =
      (layout query).lead.length + ((layout query).stages.flatMap Stage.cells).length := by
    rw [← Bytes.length_cells query, ← List.length_append]
    exact congrArg List.length (cells_eq_layout query)
  have hremaining : (remaining (layout query)).length = (layout query).lead.length +
      (join (lastGap (layout query).stages)
        ((layout query).stages.filter (!isRedundant ·))).length := by
    rw [remaining, text, List.length_map, List.length_append]
    rfl
  simp only [Bool.not_not] at hjoin
  omega

theorem changed {context : Context} {query : String}
    (hfired : (dropTimeFilter.apply context query).fired = true) :
    (dropTimeFilter.apply context query).query ≠ query := by
  cases hwindow : context.declaredWindow? with
  | none =>
      rw [apply_of_undeclared hwindow] at hfired
      simp [Outcome.unchanged, Outcome.fired] at hfired
  | some window =>
      rw [apply_of_declared hwindow] at hfired ⊢
      simp only [apply] at hfired ⊢
      split at hfired
      · simp [Outcome.unchanged, Outcome.fired] at hfired
      · rename_i hsome
        rw [if_neg hsome]
        intro hsame
        have hlength := congrArg (·.toList.length) hsame
        have hlt : (remaining (layout query.toList)).length < query.toList.length := by
          refine length_remaining fun hnil => hsome ?_
          rw [hnil]
          rfl
        simp only [Outcome.ofChanges, String.toList_ofList] at hlength
        omega

end DropTimeFilter

/-! ## Counts -/

namespace FlagCount

variable {query : List Char}

def Departs (query : List Char) (edit : Edit) : Prop :=
  ∃ front rest, query = front ++ rest ∧ edit.span = ⟨front.length, front.length⟩ ∧
    Diverge rest edit.replacement

theorem text_of_standing {before after : List Cell} {stage : Stage}
    (h : Standing (cells query) before stage after) :
    query = text before ++ (stage.text ++ text (stage.gap ++ after)) := by
  have htext := congrArg text h.row_eq
  rwa [text_cells, List.append_assoc, text_append, text_append] at htext

theorem departs_gap {pre post : List Stage} {stage : Stage}
    (hstages : (layout query).stages = pre ++ stage :: post) (hpost : post ≠ []) (rest : List Char) :
    let stop := ((layout query).lead ++ pre.flatMap Stage.cells).length + stage.body.length
    Departs query ⟨⟨stop, stop⟩, ", ".toList ++ rest⟩ := by
  intro stop
  have hstanding := standing_of_stages hstages
  have hseparator : stage.gap.any Cell.isSeparator = true := by
    refine hstanding.apart.resolve_left fun hnil => ?_
    obtain ⟨next, post, rfl⟩ := List.exists_cons_of_ne_nil hpost
    obtain ⟨cell, hcell, -⟩ := ((Layout.apart (cells query)).trimmed next (by
      rw [show (Layout.ofCells (cells query)).stages = pre ++ stage :: next :: post from hstages]
      simp)).head
    simp only [List.flatMap_cons, Stage.cells, List.append_eq_nil_iff] at hnil
    simp [hnil.1.1] at hcell
  cases hgap : stage.gap with
  | nil => simp [hgap] at hseparator
  | cons cell gap =>
      have hmem : cell ∈ cells query := by
        rw [hstanding.row_eq, hgap]
        simp
      have hchar : cell.char ≠ ',' := by
        intro hcomma
        have hkind := (paints_cells query).char_of_gap hmem
          (hstanding.trimmed.gap cell (by simp [hgap]))
        rw [hcomma] at hkind
        revert hkind
        decide
      refine ⟨text ((layout query).lead ++ pre.flatMap Stage.cells) ++ stage.text,
        text (stage.gap ++ post.flatMap Stage.cells), ?_,
        by simp [text, Stage.text, stop, Nat.add_assoc], ?_⟩
      · rw [List.append_assoc]
        exact text_of_standing hstanding
      · rw [hgap]
        exact Diverge.of_ne hchar _ _

theorem departs_verb {pre post : List Stage} {stage : Stage}
    (hstages : (layout query).stages = pre ++ stage :: post) (hverb : Aggregates stage)
    (rest : List Char) :
    let start := ((layout query).lead ++ pre.flatMap Stage.cells).length
    Departs query ⟨⟨start, start⟩, "make_col ".toList ++ rest⟩ := by
  intro start
  have hstanding := standing_of_stages hstages
  obtain ⟨verb, hverb, haggregates⟩ := hverb
  refine ⟨text ((layout query).lead ++ pre.flatMap Stage.cells),
    stage.text ++ text (stage.gap ++ post.flatMap Stage.cells), text_of_standing hstanding,
    by simp [text, start], ?_⟩
  exact hstanding.trimmed.diverge hverb (diverge_verbs verb
    (List.mem_cons_of_mem _ (List.contains_iff_mem.mp haggregates)) "make_col " (by simp)) _ _

theorem exists_derive {count : Count} (h : count ∈ found query) :
    count.stage < (layout query).stages.length ∧
      ∃ edit, derive? (layout query) (found query) count.stage = some edit ∧
        edit.span.start ≤ count.span.start ∧ Departs query edit := by
  obtain ⟨front, rest, hrow, -, hcount⟩ := (mem_counts (layout query)).mp h
  obtain ⟨_, _, _, _, _, -, -, hspan, haggregation, -⟩ := countAt?_eq_some hrow hcount
  obtain ⟨pre, stage, post, hstages, hnumber⟩ := exists_stage haggregation
  rw [← hnumber] at haggregation ⊢
  obtain ⟨hstart, -, hverb⟩ := aggregation?_eq_some hstages haggregation
  have hown : ((found query).filter (·.stage == pre.length)).isEmpty = false := by
    rw [← Bool.not_eq_true, List.isEmpty_iff, List.filter_eq_nil_iff]
    exact fun hnone => hnone count h (by simp [hnumber])
  refine ⟨by simp [hstages], ?_⟩
  rw [hspan]
  simp only [derive?, hown, Bool.false_eq_true, if_false]
  split_ifs with hderives
  · -- The stage in front derives columns.
    obtain ⟨init, last, rfl⟩ : ∃ init last, pre = init ++ [last] := by
      rcases pre.eq_nil_or_concat' with rfl | hcons
      · simp at hderives
      · exact hcons
    have hstages : (layout query).stages = init ++ last :: (stage :: post) := by simpa using hstages
    have hlength : (init ++ [last]).length - 1 = init.length := by simp
    rw [hlength, getElem?_spans_stage hstages]
    refine ⟨_, rfl, ?_, departs_gap hstages (by simp) _⟩
    simp [Stage.cells] at hstart ⊢
    omega
  · rw [getElem?_spans_stage hstages]
    refine ⟨_, rfl, hstart, ?_⟩
    rw [List.append_assoc]
    exact departs_verb hstages hverb _

/-- The first edit departs from the query: in front of every count something is inserted. -/
theorem departs_first {edit : Edit} {rest : List Edit}
    (hsort : Edit.sort (edits (layout query) (found query)) = edit :: rest) :
    Departs query edit := by
  have hmem (other : Edit) (hother : other ∈ edits (layout query) (found query)) :
      other = edit ∨ edit.le other = true := by
    have hpairwise := Edit.pairwise_sort (edits (layout query) (found query))
    have hsorted := (Edit.sort_perm (edits (layout query) (found query))).mem_iff.mpr hother
    rw [hsort] at hpairwise hsorted
    exact (List.mem_cons.mp hsorted).imp id ((List.pairwise_cons.mp hpairwise).1 other)
  have hedit : edit ∈ edits (layout query) (found query) :=
    (Edit.sort_perm _).mem_iff.mp (by rw [hsort]; simp)
  rcases mem_edits.mp hedit with ⟨count, hcount, rfl⟩ | ⟨number, hnumber, hderive⟩
  · -- A count does not come first, because its flag is derived in front of it.
    obtain ⟨hnumber, other, hderive, hstart, -⟩ := exists_derive hcount
    have hstop := start_of_derive? hderive
    have hlt := start_lt_stop hcount
    rcases hmem other (mem_edits.mpr (.inr ⟨count.stage, hnumber, hderive⟩)) with rfl | hle
    · change count.span.stop = count.span.start at hstop
      omega
    · rw [Bytes.le_iff] at hle
      change count.span.start < other.span.start ∨
        count.span.start = other.span.start ∧ count.span.stop ≤ other.span.stop at hle
      omega
  · obtain ⟨count, hcount, rfl⟩ : ∃ count ∈ found query, count.stage = number := by
      by_contra hnone
      push Not at hnone
      have hown : (found query).filter (·.stage == number) = [] := by
        rw [List.filter_eq_nil_iff]
        simpa using hnone
      simp [derive?, hown] at hderive
    obtain ⟨-, other, hother, -, hdeparts⟩ := exists_derive hcount
    rwa [Option.some.inj (hderive.symm.trans hother)]

theorem changed {context : Context} {query : String}
    (hfired : (flagCount.apply context query).fired = true) :
    (flagCount.apply context query).query ≠ query := by
  have hfound : found query.toList ≠ [] := by
    intro hnil
    change (Outcome.ofChanges _ _ ((found query.toList).map (change query.toList)) _).fired = true
      at hfired
    simp [hnil, Outcome.ofChanges, Outcome.fired] at hfired
  obtain ⟨count, hcount⟩ := List.exists_mem_of_ne_nil _ hfound
  have hsort : Edit.sort (edits (layout query.toList) (found query.toList)) ≠ [] := by
    refine List.ne_nil_of_mem (a := count.edit) ((Edit.sort_perm _).mem_iff.mpr ?_)
    exact mem_edits.mpr (.inl ⟨count, hcount, rfl⟩)
  obtain ⟨edit, rest, hsort⟩ := List.exists_cons_of_ne_nil hsort
  obtain ⟨front, behind, hquery, hspan, hdiverge⟩ := departs_first hsort
  intro hsame
  have hsplice : Edit.splice query.toList (edits (layout query.toList) (found query.toList)) =
      query.toList := (String.toList_ofList ..).symm.trans (congrArg String.toList hsame)
  have happly := Edit.applyFrom_insert 0 front behind edit.replacement rest
  rw [Nat.zero_add, ← hspan, ← hquery, ← hsort] at happly
  rw [Edit.splice] at hsplice
  have hbehind := hdiverge.append [] (Edit.applyFrom front.length behind rest)
  rw [List.append_nil] at hbehind
  refine (hbehind.behind front).ne ?_
  rw [← happly, hsplice, hquery]

end FlagCount

/-! ## The standard passes -/

/-- A standard pass fires on a query exactly if it changes it. -/
theorem fired_iff_changed {pass : Pass} (hpass : pass ∈ standardPasses) (context : Context)
    (query : String) :
    (pass.apply context query).fired = true ↔ (pass.apply context query).query ≠ query := by
  constructor
  · intro hfired
    simp only [standardPasses, List.mem_cons, List.not_mem_nil, or_false] at hpass
    rcases hpass with rfl | rfl | rfl | rfl | rfl | rfl
    · exact Pass.changed_ofPatch (AlignMetric.before_patch _) (fun _ _ => AlignMetric.diverge) hfired
    · exact Pass.changed_ofPatch (QuoteKey.before_patch _) (fun _ _ => QuoteKey.diverge) hfired
    · exact Pass.changed_ofPatch (ExpandTerms.before_patch _) (fun _ _ => ExpandTerms.diverge) hfired
    · exact DropTimeFilter.changed hfired
    · exact Pass.changed_ofPatch (SortCall.before_patch _) (fun _ _ => SortCall.diverge) hfired
    · exact FlagCount.changed hfired
  · intro hchanged
    rw [Outcome.fired, ← Option.ne_none_iff_isSome]
    intro hsilent
    have hsame := (standardPasses_sound pass hpass context query).silent hsilent
    exact hchanged (congrArg Outcome.query hsame)

/-- A key and the call that replaces it can be of one length, and blanks alone are nothing to
mend. -/
theorem fired_iff_changed_length :
    sortCall ∈ standardPasses ∧
      ((sortCall.apply {} "sort -     a").fired = true ↔
        (sortCall.apply {} "sort -     a").query ≠ "sort -     a") ∧
      ((sortCall.apply {} "sort  desc(a) ,b").fired = true ↔
        (sortCall.apply {} "sort  desc(a) ,b").query ≠ "sort  desc(a) ,b") ∧
      (sortCall.apply {} "sort -     a").fired = true ∧
      (sortCall.apply {} "sort  desc(a) ,b").fired = false := by
  have hpass : sortCall ∈ standardPasses := by simp [standardPasses]
  exact ⟨hpass, fired_iff_changed hpass {} _, fired_iff_changed hpass {} _, by decide,
    by decide⟩

end OpalRepair
