import Mathlib
import OpalRepair.Pass.ExpandTerms
import OpalRepair.Pass.FlagCount
import OpalRepair.Pass.QuoteKey
import OpalRepair.Proofs.Layout

/-!
# What has been read

Recognisers read a text from its start.  Each lemma takes the text apart into what was read and what
is left.
-/

namespace OpalRepair

open Query Text

theorem Text.drop_length_takeWhile {α : Type} (p : α → Bool) (xs : List α) :
    xs.drop (xs.takeWhile p).length = xs.dropWhile p := by
  induction xs with
  | nil => rfl
  | cons x xs ih => cases hx : p x <;> simp [hx, ih]

theorem Text.getLast?_cons_or (c : Char) (front : List Char) (previous : Option Char) :
    (c :: front).getLast?.or previous = front.getLast?.or (some c) := by
  rw [List.getLast?_cons]
  cases front.getLast? <;> rfl

def Text.Blanks (text : List Char) : Prop := ∀ c ∈ text, isBlank c = true

theorem Text.dropWhile_stop {p : Char → Bool} {front back : List Char}
    (hfront : ∀ c ∈ front, p c = true) (hback : ∀ c ∈ back.head?, p c = false) :
    (front ++ back).dropWhile p = back := by
  rw [List.dropWhile_append_of_pos hfront]
  cases back with
  | nil => rfl
  | cons c back => exact List.dropWhile_cons_of_neg (by simp [hback c (by simp)])

theorem Text.takeWhile_eq_iff {p : Char → Bool} {word : List Char} (hword : ∀ c ∈ word, p c = true)
    (text : List Char) : text.takeWhile p = word ↔
      ∃ back, text = word ++ back ∧ ∀ c ∈ back.head?, p c = false := by
  constructor
  · rintro rfl
    refine ⟨text.dropWhile p, List.takeWhile_append_dropWhile.symm, fun c hc => ?_⟩
    have hhead := List.head?_dropWhile_not p text
    rw [Option.mem_def.mp hc] at hhead
    simpa using hhead
  · rintro ⟨back, rfl, hback⟩
    rw [List.takeWhile_append_of_pos hword]
    cases back with
    | nil => simp
    | cons c back => simp [hback c (by simp)]

theorem Text.exists_blanks (text : List Char) :
    ∃ blanks, (∀ c ∈ blanks, isBlank c = true) ∧ text = blanks ++ trimStart text :=
  ⟨text.takeWhile isBlank, fun _ hc => List.mem_takeWhile_imp hc,
    List.takeWhile_append_dropWhile.symm⟩

theorem Text.forall_of_trim_isEmpty {text : List Char} (h : (trim text).isEmpty = true) :
    ∀ c ∈ text, isBlank c = true := by
  obtain ⟨front, hfront, htext⟩ := exists_blanks text
  obtain ⟨back, hback, htrim⟩ := exists_trailing isBlank (trimStart text)
  rw [← trimEnd, ← trim, List.isEmpty_iff.mp h, List.nil_append] at htrim
  rw [htext, htrim]
  intro c hc
  rcases List.mem_append.mp hc with hc | hc
  · exact hfront c hc
  · exact hback c hc

theorem Text.trim_of_forall {text : List Char} (h : ∀ c ∈ text, isBlank c = true) :
    trim text = [] := by
  rw [trim, trimStart, List.dropWhile_eq_nil_iff.mpr h]
  rfl

namespace Query

theorem row_of_text {row : List Cell} {a b : List Char} (h : text row = a ++ b) :
    ∃ front back, row = front ++ back ∧ text front = a ∧ text back = b :=
  List.map_eq_append_iff.mp h

theorem row_of_text_cons {row : List Cell} {c : Char} {b : List Char} (h : text row = c :: b) :
    ∃ cell back, row = cell :: back ∧ cell.char = c ∧ text back = b :=
  List.map_eq_cons_iff.mp h

theorem filterMap_sitesFrom {β : Type} {read? : Site → Option β} {row behind : List Cell}
    (h : ∀ n < row.length, ∀ index previous, read? ⟨index, previous, row.drop n ++ behind⟩ = none)
    (index : Nat) (previous : Option Char) :
    (sitesFrom index previous (row ++ behind)).filterMap read? =
      (sitesFrom (index + row.length) ((text row).getLast?.or previous) behind).filterMap read? := by
  induction row generalizing index previous with
  | nil => rfl
  | cons cell row ih =>
      have hfirst : read? ⟨index, previous, cell :: (row ++ behind)⟩ = none :=
        h 0 (Nat.succ_pos _) index previous
      have hrest := ih fun n hn => h (n + 1) (Nat.succ_lt_succ hn)
      rw [List.cons_append, sitesFrom, List.filterMap_cons_none hfirst, hrest, text_cons,
        getLast?_cons_or, List.length_cons, Nat.add_right_comm, Nat.add_assoc]

theorem mem_sitesFrom {site : Site} {index : Nat} {previous : Option Char} {row : List Cell} :
    site ∈ sitesFrom index previous row ↔
      ∃ front, row = front ++ site.rest ∧ site.rest ≠ [] ∧ site.index = index + front.length ∧
        site.previous = (text front).getLast?.or previous := by
  induction row generalizing index previous with
  | nil =>
      simp only [sitesFrom, List.not_mem_nil, false_iff]
      rintro ⟨front, hrow, hrest, -⟩
      exact hrest (List.append_eq_nil_iff.mp hrow.symm).2
  | cons cell row ih =>
      rw [sitesFrom, List.mem_cons, ih]
      constructor
      · rintro (rfl | ⟨front, rfl, hrest, hindex, hprevious⟩)
        · exact ⟨[], rfl, by simp, rfl, rfl⟩
        · refine ⟨cell :: front, rfl, hrest, ?_, by rw [hprevious, text_cons, getLast?_cons_or]⟩
          rw [hindex, List.length_cons]
          omega
      · rintro ⟨front, hrow, hrest, hindex, hprevious⟩
        cases front with
        | nil =>
            obtain ⟨_, _, _⟩ := site
            simp_all
        | cons first front =>
            obtain ⟨rfl, rfl⟩ := List.cons.inj hrow
            refine .inr ⟨front, rfl, hrest, ?_, by rw [hprevious, text_cons, getLast?_cons_or]⟩
            rw [hindex, List.length_cons]
            omega

theorem pairwise_sitesFrom (index : Nat) (previous : Option Char) (row : List Cell) :
    (sitesFrom index previous row).Pairwise fun a b => a.index < b.index := by
  induction row generalizing index previous with
  | nil => exact .nil
  | cons cell row ih =>
      refine List.pairwise_cons.mpr ⟨fun site hsite => ?_, ih _ _⟩
      obtain ⟨front, -, -, hindex, -⟩ := mem_sitesFrom.mp hsite
      change index < site.index
      omega

theorem of_mem_sitesFrom {site : Site} {index : Nat} {previous : Option Char} {row : List Cell}
    (h : site ∈ sitesFrom index previous row) :
    ∃ front, row = front ++ site.rest ∧ site.index = index + front.length := by
  obtain ⟨front, hrow, -, hindex, -⟩ := mem_sitesFrom.mp h
  exact ⟨front, hrow, hindex⟩

theorem skipTo?_eq {c : Char} {text rest : List Char} (h : skipTo? c text = some rest) :
    ∃ blanks, (∀ b ∈ blanks, isBlank b = true) ∧ text = blanks ++ c :: rest := by
  obtain ⟨blanks, hblanks, htext⟩ := exists_blanks text
  refine ⟨blanks, hblanks, ?_⟩
  rw [skipTo?] at h
  split at h
  · simp at h
  · rename_i d rest' hd
    split at h
    · rename_i hc
      rw [Option.some.inj h, hc] at hd
      rw [htext, hd]
    · simp at h

theorem skipTo?_blanks {c d : Char} {blanks rest : List Char}
    (hblanks : ∀ b ∈ blanks, isBlank b = true) (hd : isBlank d = false) :
    skipTo? c (blanks ++ d :: rest) = if d = c then some rest else none := by
  rw [skipTo?, trimStart, List.dropWhile_append_of_pos hblanks, List.dropWhile_cons_of_neg (by simp [hd])]

theorem callHead?_eq {text name rest : List Char} (h : callHead? text = some (name, rest)) :
    name = text.takeWhile isNameChar ∧
      ∃ blanks, (∀ b ∈ blanks, isBlank b = true) ∧ text = name ++ blanks ++ '(' :: rest := by
  obtain ⟨rest', hskip, hpair⟩ := Option.map_eq_some_iff.mp h
  obtain ⟨rfl, rfl⟩ := Prod.mk.inj hpair
  obtain ⟨blanks, hblanks, hdrop⟩ := skipTo?_eq hskip
  refine ⟨rfl, blanks, hblanks, ?_⟩
  rw [List.append_assoc, ← hdrop, List.takeWhile_append_dropWhile]

theorem pathTail_prefix (state : PathState) (text : List Char) : pathTail state text <+: text := by
  induction text generalizing state with
  | nil => cases state <;> exact List.prefix_rfl
  | cons c rest ih =>
      cases state with
      | name =>
          rw [pathTail]
          split
          · exact List.cons_prefix_cons.mpr ⟨rfl, ih _⟩
          · split
            · exact List.cons_prefix_cons.mpr ⟨rfl, ih _⟩
            · exact List.nil_prefix
      | dot | quoted => exact List.cons_prefix_cons.mpr ⟨rfl, ih _⟩
      | closed =>
          rw [pathTail]
          split
          · exact List.cons_prefix_cons.mpr ⟨rfl, ih _⟩
          · exact List.nil_prefix

theorem path?_eq {text path : List Char} (h : path? text = some path) :
    path ≠ [] ∧ ∃ rest, text = path ++ rest := by
  cases text with
  | nil => simp [path?] at h
  | cons c text =>
      rw [path?] at h
      split at h
      · obtain rfl := Option.some.inj h
        obtain ⟨rest, hrest⟩ := pathTail_prefix .name text
        exact ⟨by simp, rest, by rw [List.cons_append, hrest]⟩
      · simp at h

end Query

namespace QuoteKey

/-- The characters of attributes: those of names, and dots. -/
def isPathChar (c : Char) : Bool := isNameChar c || c == '.'

/-- `parent` and `key` have the form of an attribute, which ends in front of `rest`. -/
structure IsAttribute (parent key rest : List Char) : Prop where
  parent_ne : parent ≠ []
  parent_name : ∀ c ∈ parent, isNameChar c = true
  key_path : ∀ c ∈ key, isPathChar c = true
  key_last : ∃ c ∈ key.getLast?, isNameChar c = true
  stop : ∀ c ∈ rest.head?, isNameChar c = false

theorem dotted_append (text : List Char) :
    ∃ rest, text = dotted text ++ rest ∧ (∀ c ∈ dotted text, isPathChar c = true) ∧
      (dotted text ≠ [] → ∃ c ∈ (dotted text).getLast?, isNameChar c = true) ∧
      ∀ c ∈ rest.head?, isNameChar c = false := by
  induction text with
  | nil => exact ⟨[], by simp [dotted]⟩
  | cons c text ih =>
      obtain ⟨rest, htext, hpath, hlast, hstop⟩ := ih
      by_cases hc : (isNameChar c || (c == '.' && text.head?.any isNameChar)) = true
      · rw [dotted, if_pos hc]
        refine ⟨rest, by rw [List.cons_append, ← htext], ?_, fun _ => ?_, hstop⟩
        · refine List.forall_mem_cons.mpr ⟨?_, hpath⟩
          simp only [isPathChar, Bool.or_eq_true, Bool.and_eq_true] at hc ⊢
          exact hc.imp_right And.left
        · -- A dot has a name behind it, so that the run does not end with it.
          cases hrun : dotted text with
          | cons d run =>
              rw [List.getLast?_cons_cons, ← hrun]
              exact hlast (by simp [hrun])
          | nil =>
              rw [hrun, List.nil_append] at htext
              have hhead : text.head?.any isNameChar = false := by
                rw [htext]
                cases rest with
                | nil => rfl
                | cons d rest => simpa using hstop d rfl
              exact ⟨c, rfl, by simpa [hhead] using hc⟩
      · rw [dotted, if_neg hc]
        refine ⟨c :: text, rfl, by simp, by simp, ?_⟩
        simp only [Bool.or_eq_true, not_or, Bool.not_eq_true] at hc
        simpa using hc.1

theorem attribute?_eq {text parent key : List Char} (h : attribute? text = some (parent, key)) :
    ∃ rest, text = parent ++ '.' :: key ++ rest ∧ IsAttribute parent key rest := by
  simp only [attribute?] at h
  split at h
  · simp at h
  rename_i hparent
  have hne : text.takeWhile isNameChar ≠ [] := by
    intro hnil
    rw [hnil] at hparent
    exact absurd hparent (by decide)
  split at h
  · rename_i behind hbehind
    split at h
    · rename_i hfound
      obtain ⟨rfl, rfl⟩ := Prod.mk.inj (Option.some.inj h)
      rw [drop_length_takeWhile] at hbehind hfound ⊢
      obtain ⟨rest, hrest, hpath, hlast, hstop⟩ := dotted_append (behind.dropWhile isNameChar)
      have hsegments : dotted (behind.dropWhile isNameChar) ≠ [] := by
        simp only [Bool.and_eq_true] at hfound
        simpa using hfound.2
      refine ⟨rest, ?_, hne, fun c hc => List.mem_takeWhile_imp hc, ?_, ?_, hstop⟩
      · calc text = text.takeWhile isNameChar ++ '.' :: behind := by
              rw [← hbehind, List.takeWhile_append_dropWhile]
          _ = text.takeWhile isNameChar ++
                '.' :: (behind.takeWhile isNameChar ++ behind.dropWhile isNameChar) := by
              rw [List.takeWhile_append_dropWhile]
          _ = _ := by simp only [List.append_assoc, List.cons_append, ← hrest]
      · intro c hc
        rcases List.mem_append.mp hc with hc | hc
        · simp [isPathChar, List.mem_takeWhile_imp hc]
        · exact hpath c hc
      · rw [List.getLast?_append_of_ne_nil _ hsegments]
        exact hlast hsegments
    · simp at h
  · simp at h

end QuoteKey

theorem ExpandTerms.search?_eq {text : List Char} {search : Search}
    (h : search? text = some search) :
    ∃ gap blanks after, (∀ c ∈ gap, isBlank c = true) ∧ (∀ c ∈ blanks, isBlank c = true) ∧
      (∀ c ∈ search.terms, c ≠ '<' ∧ c ≠ '>') ∧ path? text = some search.field ∧
      text = search.field ++ gap ++ '~' :: blanks ++ '<' :: search.terms ++ '>' :: after ∧
      search.size + after.length = text.length := by
  obtain ⟨field, hfield, h⟩ := Option.bind_eq_some_iff.mp h
  obtain ⟨behind, hbehind, h⟩ := Option.bind_eq_some_iff.mp h
  obtain ⟨inside, hinside, h⟩ := Option.bind_eq_some_iff.mp h
  obtain ⟨-, rest, rfl⟩ := path?_eq hfield
  rw [List.drop_left] at hbehind
  obtain ⟨gap, hgap, rfl⟩ := skipTo?_eq hbehind
  obtain ⟨blanks, hblanks, rfl⟩ := skipTo?_eq hinside
  dsimp only at h
  rw [drop_length_takeWhile] at h
  split at h
  · rename_i after hafter
    obtain rfl := Option.some.inj h
    refine ⟨gap, blanks, after, hgap, hblanks, ?_, hfield, ?_, ?_⟩
    · intro c hc
      simpa using List.mem_takeWhile_imp hc
    · simp [← hafter, List.takeWhile_append_dropWhile]
    · have hinside : inside.length =
          (inside.takeWhile fun c => c != '<' && c != '>').length + (after.length + 1) := by
        rw [← List.length_cons, ← hafter, ← List.length_append, List.takeWhile_append_dropWhile]
      simp
      omega
  · simp at h

theorem FlagCount.countHead?_eq {text label arguments : List Char}
    (h : countHead? text = some (label, arguments)) :
    ∃ gap blanks spaces, (∀ c ∈ gap, isBlank c = true) ∧ (∀ c ∈ blanks, isBlank c = true) ∧
      (∀ c ∈ spaces, isBlank c = true) ∧ label = text.takeWhile isNameChar ∧
      text = label ++ gap ++ ':' :: blanks ++ "count_if".toList ++ spaces ++ '(' :: arguments := by
  rw [countHead?] at h
  split at h
  · simp at h
  · obtain ⟨behind, hbehind, h⟩ := Option.bind_eq_some_iff.mp h
    obtain ⟨⟨name, rest⟩, hcall, h⟩ := Option.bind_eq_some_iff.mp h
    obtain ⟨gap, hgap, hdrop⟩ := skipTo?_eq hbehind
    obtain ⟨blanks, hblanks, htrim⟩ := exists_blanks behind
    obtain ⟨-, spaces, hspaces, hname⟩ := callHead?_eq hcall
    dsimp only at h
    split at h
    · rename_i hcount
      obtain ⟨rfl, rfl⟩ := Prod.mk.inj (Option.some.inj h)
      refine ⟨gap, blanks, spaces, hgap, hblanks, hspaces, rfl, ?_⟩
      have hcount : name = "count_if".toList := by rw [← hcount, String.toList_ofList]
      calc text = text.takeWhile isNameChar ++ (gap ++ ':' :: behind) := by
            rw [← hdrop, List.takeWhile_append_dropWhile]
        _ = _ := by
            rw [htrim, hname, hcount]
            simp
    · simp at h

end OpalRepair
