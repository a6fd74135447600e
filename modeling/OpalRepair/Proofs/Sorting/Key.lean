import Mathlib
import OpalRepair.Check
import OpalRepair.Proofs.Characters
import OpalRepair.Proofs.Template.Path

/-!
# Sort keys

A key that is mended is a field path with a minus in front of it or with a keyword behind it.
-/

namespace OpalRepair

open Query Text

/-! ## Field paths -/

namespace Query

/-- A segment of a field path: a name or a key in double quotes. -/
inductive Segment : List Char → Prop where
  | name {c : Char} {name : List Char} (hstart : isNameStart c = true)
      (hname : ∀ d ∈ name, isNameChar d = true) : Segment (c :: name)
  | quoted {key : List Char} (hkey : '"' ∉ key) : Segment ('"' :: (key ++ ['"']))

def dots (segments : List (List Char)) : List Char := segments.flatMap ('.' :: ·)

@[simp] theorem dots_cons (segment : List Char) (segments : List (List Char)) :
    dots (segment :: segments) = '.' :: (segment ++ dots segments) := rfl

inductive FieldPath : List Char → Prop where
  | intro {c : Char} {name : List Char} {segments : List (List Char)}
      (hstart : isNameStart c = true) (hname : ∀ d ∈ name, isNameChar d = true)
      (hsegments : ∀ segment ∈ segments, Segment segment) : FieldPath (c :: (name ++ dots segments))

def Stops (rest : List Char) : Prop := ∀ c ∈ rest.head?, isNameChar c = false ∧ c ≠ '.'

section Tails

variable {rest : List Char}

theorem pathTail_name {name : List Char} (hname : ∀ c ∈ name, isNameChar c = true)
    (rest : List Char) : pathTail .name (name ++ rest) = name ++ pathTail .name rest := by
  induction name with
  | nil => rfl
  | cons c name ih =>
      obtain ⟨hc, hname⟩ := List.forall_mem_cons.mp hname
      rw [List.cons_append, pathTail, if_pos hc, ih hname, List.cons_append]

theorem pathTail_segment {state : PathState} (hstate : state = .name ∨ state = .closed)
    {segment : List Char} (hsegment : Segment segment) (rest : List Char) :
    ∃ next : PathState, (next = .name ∨ next = .closed) ∧
      pathTail state ('.' :: (segment ++ rest)) = '.' :: (segment ++ pathTail next rest) := by
  have hdot (hstarts : startsSegment (segment ++ rest) = true) :
      pathTail state ('.' :: (segment ++ rest)) = '.' :: pathTail .dot (segment ++ rest) := by
    rcases hstate with rfl | rfl
    · rw [pathTail, if_neg (by decide), if_pos ⟨rfl, hstarts⟩]
    · rw [pathTail, if_pos ⟨rfl, hstarts⟩]
  cases hsegment with
  | @name c name hstart hname =>
      have hquote : c ≠ '"' := by
        rintro rfl
        exact absurd hstart (by decide)
      refine ⟨.name, .inl rfl, ?_⟩
      rw [hdot (by simp [startsSegment, hstart]), List.cons_append, pathTail, if_neg hquote,
        pathTail_name hname, List.cons_append]
  | @quoted key hkey =>
      refine ⟨.closed, .inr rfl, ?_⟩
      rw [hdot (by simp [startsSegment]), List.cons_append, pathTail, if_pos rfl, List.append_assoc,
        List.singleton_append, pathTail_quoted hkey]
      simp

theorem pathTail_dots {state : PathState} (hstate : state = .name ∨ state = .closed)
    {segments : List (List Char)} (hsegments : ∀ segment ∈ segments, Segment segment)
    (hrest : Stops rest) : pathTail state (dots segments ++ rest) = dots segments := by
  induction segments generalizing state with
  | nil =>
      cases rest with
      | nil => cases state <;> rfl
      | cons c rest =>
          obtain ⟨hname, hdot⟩ := hrest c (by simp)
          rcases hstate with rfl | rfl
          · exact (if_neg (by simp [hname])).trans (if_neg fun h => hdot h.1)
          · exact if_neg fun h => hdot h.1
  | cons segment segments ih =>
      obtain ⟨hsegment, hsegments⟩ := List.forall_mem_cons.mp hsegments
      obtain ⟨next, hnext, htail⟩ := pathTail_segment hstate hsegment (dots segments ++ rest)
      rw [dots_cons, List.cons_append, List.append_assoc, htail, ih hnext hsegments]

theorem FieldPath.path?_append {field : List Char} (h : FieldPath field) (hrest : Stops rest) :
    path? (field ++ rest) = some field := by
  obtain ⟨hstart, hname, hsegments⟩ := h
  rw [List.cons_append, path?, if_pos hstart, List.append_assoc, pathTail_name hname,
    pathTail_dots (.inl rfl) hsegments hrest]

theorem exists_dots (state : PathState) (text : List Char) :
    match state with
    | .name => ∃ name segments, (∀ c ∈ name, isNameChar c = true) ∧
        (∀ segment ∈ segments, Segment segment) ∧ pathTail .name text = name ++ dots segments
    | .closed => ∃ segments, (∀ segment ∈ segments, Segment segment) ∧
        pathTail .closed text = dots segments
    | .dot => startsSegment text = true → ∃ segments, (∀ segment ∈ segments, Segment segment) ∧
        '.' :: pathTail .dot text = dots segments
    | .quoted => '"' ∈ text → ∃ key segments, '"' ∉ key ∧ (∀ segment ∈ segments, Segment segment) ∧
        pathTail .quoted text = key ++ '"' :: dots segments := by
  induction text generalizing state with
  | nil =>
      cases state with
      | name => exact ⟨[], [], by simp, by simp, rfl⟩
      | closed => exact ⟨[], by simp, rfl⟩
      | dot => simp [startsSegment]
      | quoted => simp
  | cons c text ih =>
      cases state with
      | name =>
          dsimp only
          rw [pathTail]
          split_ifs with hc hdot
          · obtain ⟨name, segments, hname, hsegments, htail⟩ := ih .name
            refine ⟨c :: name, segments, ?_, hsegments, by rw [htail]; rfl⟩
            exact List.forall_mem_cons.mpr ⟨hc, hname⟩
          · obtain ⟨segments, hsegments, htail⟩ := ih .dot hdot.2
            exact ⟨[], segments, by simp, hsegments, by rw [hdot.1, htail]; rfl⟩
          · exact ⟨[], [], by simp, by simp, rfl⟩
      | closed =>
          dsimp only
          rw [pathTail]
          split_ifs with hdot
          · obtain ⟨segments, hsegments, htail⟩ := ih .dot hdot.2
            exact ⟨segments, hsegments, by rw [hdot.1, htail]⟩
          · exact ⟨[], by simp, rfl⟩
      | dot =>
          intro hstarts
          rw [pathTail]
          by_cases hquote : c = '"'
          · subst hquote
            have hmem : '"' ∈ text := by simpa [startsSegment, isNameStart] using hstarts
            obtain ⟨key, segments, hkey, hsegments, htail⟩ := ih .quoted hmem
            refine ⟨('"' :: (key ++ ['"'])) :: segments,
              List.forall_mem_cons.mpr ⟨.quoted hkey, hsegments⟩, ?_⟩
            rw [if_pos rfl, htail]
            simp
          · have hstart : isNameStart c = true := by simpa [startsSegment, hquote] using hstarts
            obtain ⟨name, segments, hname, hsegments, htail⟩ := ih .name
            refine ⟨(c :: name) :: segments,
              List.forall_mem_cons.mpr ⟨.name hstart hname, hsegments⟩, ?_⟩
            rw [if_neg hquote, htail]
            simp
      | quoted =>
          intro hmem
          rw [pathTail]
          by_cases hquote : c = '"'
          · obtain ⟨segments, hsegments, htail⟩ := ih .closed
            exact ⟨[], segments, by simp, hsegments, by rw [if_pos hquote, htail, hquote]; rfl⟩
          · have hrest : '"' ∈ text := (List.mem_cons.mp hmem).resolve_left fun h => hquote h.symm
            obtain ⟨key, segments, hkey, hsegments, htail⟩ := ih .quoted hrest
            refine ⟨c :: key, segments, ?_, hsegments, by rw [if_neg hquote, htail]; rfl⟩
            simp only [List.mem_cons, not_or]
            exact ⟨fun h => hquote h.symm, hkey⟩

theorem fieldPath_of_path? {text path : List Char} (h : path? text = some path) :
    FieldPath path := by
  cases text with
  | nil => simp [path?] at h
  | cons c text =>
      rw [path?] at h
      split at h
      · rename_i hstart
        obtain rfl := Option.some.inj h
        obtain ⟨name, segments, hname, hsegments, htail⟩ := exists_dots .name text
        rw [htail]
        exact .intro hstart hname hsegments
      · simp at h

end Tails

theorem FieldPath.head {field : List Char} (h : FieldPath field) :
    ∃ c rest, field = c :: rest ∧ isNameStart c = true ∧ isBlank c = false := by
  obtain ⟨hstart, -, -⟩ := h
  exact ⟨_, _, rfl, hstart, isBlank_of_isNameChar (isNameChar_of_isNameStart hstart)⟩

end Query

/-! ## Keys with a direction -/

namespace SortCall

/-- A key that spells out a direction for a field: a minus in front of the field, or a keyword
behind it in any case. -/
inductive Spells : List Char → List Char → List Char → Prop where
  | minus {blanks field : List Char} (hblanks : Blanks blanks) (hfield : FieldPath field) :
      Spells ('-' :: (blanks ++ field)) "desc".toList field
  | keyword {field blanks keyword : List Char} (hfield : FieldPath field) (hne : blanks ≠ [])
      (hblanks : Blanks blanks)
      (hkeyword : keyword.map foldCase = "asc".toList ∨ keyword.map foldCase = "desc".toList) :
      Spells (field ++ (blanks ++ keyword)) (keyword.map Char.toLower) field

theorem stops_of_blanks {blanks rest : List Char} (hne : blanks ≠ []) (hblanks : Blanks blanks) :
    Stops (blanks ++ rest) := by
  obtain ⟨b, blanks, rfl⟩ := List.exists_cons_of_ne_nil hne
  intro c hc
  obtain rfl : b = c := by simpa using hc
  have hb := hblanks b (by simp)
  refine ⟨isNameChar_of_isBlank hb, ?_⟩
  rintro rfl
  exact absurd hb (by decide)

theorem toLower_of_foldCase {c d : Char} (h : foldCase c = d) :
    c.toLower = d ∨ c = 'ſ' ∧ d = 's' := by
  rw [foldCase] at h
  split at h
  · rename_i hc
    exact .inr ⟨hc, h.symm⟩
  · exact .inl h

theorem toLower_of_isBlank {c : Char} (h : isBlank c = true) : c.toLower = c := by
  have hupper : ¬ (c.val ≥ 'A'.val ∧ c.val ≤ 'Z'.val) := by
    rintro ⟨hlow, hhigh⟩
    have hlow : 65 ≤ c.toNat := hlow
    have hhigh : c.toNat ≤ 90 := hhigh
    rcases isBlank_cases h with ⟨-, hc⟩ | ⟨hbig, -⟩ <;> omega
  exact dif_neg hupper

theorem head_of_keyword {keyword : List Char}
    (h : keyword.map foldCase = "asc".toList ∨ keyword.map foldCase = "desc".toList) :
    ∀ c ∈ keyword.head?, isBlank c = false := by
  intro c hc
  by_contra hblank
  have hblank : isBlank c = true := by simpa using hblank
  have hfold : foldCase c = c := by
    have hlong : c ≠ 'ſ' := by
      rintro rfl
      exact absurd hblank (by decide)
    rw [foldCase, if_neg hlong, toLower_of_isBlank hblank]
  have hfirst : (keyword.map foldCase).head? = some c := by
    rw [List.head?_map, Option.mem_def.mp hc, Option.map_some, hfold]
  rcases h with h | h <;> rw [h] at hfirst <;> obtain rfl := Option.some.inj hfirst <;>
    exact absurd hblank (by decide)

theorem direction_cases {keyword : List Char}
    (h : keyword.map foldCase = "asc".toList ∨ keyword.map foldCase = "desc".toList) :
    keyword.map Char.toLower = "asc".toList ∨ keyword.map Char.toLower = "aſc".toList ∨
      keyword.map Char.toLower = "desc".toList ∨ keyword.map Char.toLower = "deſc".toList := by
  have hletter {c d : Char} (hd : d ≠ 's') (hc : foldCase c = d) : c.toLower = d :=
    (toLower_of_foldCase hc).resolve_right fun h => hd h.2
  have hs {c : Char} (hc : foldCase c = 's') : c.toLower = 's' ∨ c.toLower = 'ſ' :=
    (toLower_of_foldCase hc).imp id fun h => by rw [h.1]; decide
  rcases h with h | h
  · have h : keyword.map foldCase = ['a', 's', 'c'] := h
    obtain ⟨a, rest, rfl, ha, hrest⟩ := List.map_eq_cons_iff.mp h
    obtain ⟨s, rest, rfl, hs', hrest⟩ := List.map_eq_cons_iff.mp hrest
    obtain ⟨c, rest, rfl, hc, hrest⟩ := List.map_eq_cons_iff.mp hrest
    obtain rfl := List.map_eq_nil_iff.mp hrest
    simp only [List.map_cons, List.map_nil, hletter (by decide) ha, hletter (by decide) hc]
    rcases hs hs' with hs | hs <;> simp [hs]
  · have h : keyword.map foldCase = ['d', 'e', 's', 'c'] := h
    obtain ⟨d, rest, rfl, hd, hrest⟩ := List.map_eq_cons_iff.mp h
    obtain ⟨e, rest, rfl, he, hrest⟩ := List.map_eq_cons_iff.mp hrest
    obtain ⟨s, rest, rfl, hs', hrest⟩ := List.map_eq_cons_iff.mp hrest
    obtain ⟨c, rest, rfl, hc, hrest⟩ := List.map_eq_cons_iff.mp hrest
    obtain rfl := List.map_eq_nil_iff.mp hrest
    simp only [List.map_cons, List.map_nil, hletter (by decide) hd, hletter (by decide) he,
      hletter (by decide) hc]
    rcases hs hs' with hs | hs <;> simp [hs]

theorem wholePath?_eq_some {text path : List Char} :
    wholePath? text = some path ↔ path = text ∧ FieldPath text := by
  rw [wholePath?, Option.filter_eq_some_iff]
  constructor
  · rintro ⟨hpath, hlength⟩
    obtain ⟨-, rest, rfl⟩ := path?_eq hpath
    have hnil : rest = [] := by simpa using hlength
    subst hnil
    rw [List.append_nil]
    exact ⟨rfl, fieldPath_of_path? hpath⟩
  · rintro ⟨rfl, hfield⟩
    have hpath : path? (path ++ []) = some path := hfield.path?_append (by simp [Stops])
    rw [List.append_nil] at hpath
    exact ⟨hpath, by simp⟩

theorem keywordKey?_eq_some {key new : List Char} : keywordKey? key = some new ↔
    ∃ field blanks keyword, key = field ++ (blanks ++ keyword) ∧ FieldPath field ∧ blanks ≠ [] ∧
      Blanks blanks ∧
      (keyword.map foldCase = "asc".toList ∨ keyword.map foldCase = "desc".toList) ∧
      new = directed (keyword.map Char.toLower) field := by
  have hfolded (letters : List Char) (word : String) :
      (String.ofList letters == word) = true ↔ letters = word.toList := by
    rw [beq_iff_eq]
    exact ⟨fun h => by rw [← h, String.toList_ofList], fun h => by rw [h, String.ofList_toList]⟩
  constructor
  · intro h
    obtain ⟨field, hpath, h⟩ := Option.bind_eq_some_iff.mp h
    obtain ⟨-, behind, rfl⟩ := path?_eq hpath
    rw [List.drop_left] at h
    dsimp only at h
    split at h
    · rename_i hif
      obtain ⟨hblank, hkeyword⟩ := Bool.and_eq_true_iff.mp hif
      rw [Bool.or_eq_true, hfolded, hfolded] at hkeyword
      have hsplit : behind = behind.takeWhile isBlank ++ trimStart behind :=
        List.takeWhile_append_dropWhile.symm
      refine ⟨field, behind.takeWhile isBlank, trimStart behind, by rw [← hsplit],
        fieldPath_of_path? hpath, ?_, fun _ hc => List.mem_takeWhile_imp hc, hkeyword,
        (Option.some.inj h).symm⟩
      cases behind with
      | nil => simp at hblank
      | cons c behind => rw [List.takeWhile_cons_of_pos (by simpa using hblank)]; simp
    · simp at h
  · rintro ⟨field, blanks, keyword, rfl, hfield, hne, hblanks, hkeyword, rfl⟩
    rw [keywordKey?, hfield.path?_append (stops_of_blanks hne hblanks), Option.bind_some]
    dsimp only
    rw [List.drop_left, trimStart, dropWhile_stop hblanks (head_of_keyword hkeyword)]
    refine if_pos (Bool.and_eq_true_iff.mpr ⟨?_, ?_⟩)
    · obtain ⟨b, blanks, rfl⟩ := List.exists_cons_of_ne_nil hne
      simpa using hblanks b (by simp)
    · rwa [Bool.or_eq_true, hfolded, hfolded]

theorem normalize?_eq_some {key new : List Char} : normalize? key = some new ↔
    ∃ direction field, Spells key direction field ∧ new = directed direction field := by
  rw [normalize?.eq_def]
  split
  · rename_i field
    rw [Option.map_eq_some_iff]
    constructor
    · rintro ⟨path, hpath, rfl⟩
      obtain ⟨rfl, hfield⟩ := wholePath?_eq_some.mp hpath
      obtain ⟨blanks, hblanks, htext⟩ := exists_blanks field
      refine ⟨_, _, ?_, rfl⟩
      rw [htext]
      nth_rewrite 2 [← htext]
      exact .minus hblanks hfield
    · rintro ⟨direction, path, hspells, rfl⟩
      generalize hkey : '-' :: field = key at hspells
      cases hspells with
      | minus hblanks hfield =>
          obtain ⟨c, rest, rfl, -, hc⟩ := hfield.head
          obtain rfl := (List.cons.inj hkey).2
          rw [trimStart, dropWhile_stop hblanks (by simp [hc])]
          exact ⟨_, wholePath?_eq_some.mpr ⟨rfl, hfield⟩, rfl⟩
      | keyword hfield =>
          obtain ⟨c, rest, rfl, hstart, -⟩ := hfield.head
          obtain rfl := (List.cons.inj hkey).1
          exact absurd hstart (by decide)
  · rename_i hminus
    rw [keywordKey?_eq_some]
    constructor
    · rintro ⟨field, blanks, keyword, rfl, hfield, hne, hblanks, hkeyword, rfl⟩
      exact ⟨_, _, .keyword hfield hne hblanks hkeyword, rfl⟩
    · rintro ⟨direction, field, hspells, rfl⟩
      cases hspells with
      | minus => exact absurd rfl (hminus _)
      | keyword hfield hne hblanks hkeyword =>
          exact ⟨_, _, _, rfl, hfield, hne, hblanks, hkeyword, rfl⟩

/-! ## Stages with directions -/

def keys (stage : Stage) : List (List Char) := (listItems (stage.body.drop 4)).map text

/-- What is written for a key: a call for one that spells out a direction, any other as it is. -/
inductive Mends : List Char → List Char → Prop where
  | kept {key : List Char} (h : ∀ direction field, ¬ Spells key direction field) : Mends key key
  | directed {key direction field : List Char} (h : Spells key direction field) :
      Mends key (directed direction field)

theorem mends_getD (key : List Char) : Mends key ((normalize? key).getD key) := by
  cases h : normalize? key with
  | none =>
      refine .kept fun direction field hspells => ?_
      rw [normalize?_eq_some.mpr ⟨direction, field, hspells, rfl⟩] at h
      simp at h
  | some new =>
      obtain ⟨direction, field, hspells, rfl⟩ := normalize?_eq_some.mp h
      exact .directed hspells

theorem forall₂_mends (keys : List (List Char)) :
    List.Forall₂ Mends keys (keys.map fun key => (normalize? key).getD key) :=
  List.forall₂_map_right_iff.mpr (List.forall₂_same.mpr fun key _ => mends_getD key)

theorem mendStage?_eq_some {stage : Stage} {new : List Char} (h : mendStage? stage = some new) :
    stage.hasVerb "sort" = true ∧ (∃ key ∈ keys stage, (normalize? key).isSome = true) ∧
      new = "sort ".toList ++
        List.intercalate ", ".toList ((keys stage).map fun key => (normalize? key).getD key) := by
  rw [mendStage?] at h
  split at h
  · simp at h
  · rename_i hverb
    dsimp only at h
    split at h
    · rename_i hany
      exact ⟨by simpa using hverb, List.any_eq_true.mp hany, (Option.some.inj h).symm⟩
    · simp at h

/-- The directions that are written are the keywords of the language, unless a keyword has a long
s. -/
theorem Spells.direction_iff {key direction field : List Char} (h : Spells key direction field) :
    (direction = "asc".toList ∨ direction = "desc".toList ↔ 'ſ' ∉ direction) ∧
      (isCallable (String.ofList direction) = true ↔ 'ſ' ∉ direction) := by
  cases h with
  | minus => decide
  | keyword hfield hne hblanks hkeyword =>
      rcases direction_cases hkeyword with h | h | h | h <;> rw [h] <;> decide +kernel

end SortCall

/-- The pass rewrites sort stages only and writes their keys in order.  A key that spells out a
direction becomes a call on its field path, whose name is a function of the language unless the
keyword has a long s; other keys stay. -/
theorem sortCall_directs_fields (context : Context) (query : String) :
    let outcome := sortCall.apply context query
    let patch := SortCall.patch query.toList
    patch.before = query.toList ∧ patch.after = outcome.query.toList ∧
      (∀ transformation ∈ outcome.transformation, transformation.changes = patch.changes) ∧
      ∀ found replacement, .change found replacement ∈ patch →
        ∃ stage ∈ (layout query.toList).stages, stage.hasVerb "sort" = true ∧ found = stage.text ∧
          ∃ written, replacement = "sort ".toList ++ List.intercalate ", ".toList written ∧
            List.Forall₂ (fun key new =>
              (∀ direction field, ¬ SortCall.Spells key direction field) ∧ new = key ∨
              ∃ direction field, SortCall.Spells key direction field ∧
                new = direction ++ '(' :: field ++ [')'] ∧
                (direction = "asc".toList ∨ direction = "desc".toList ↔ 'ſ' ∉ direction) ∧
                (isCallable (String.ofList direction) = true ↔ 'ſ' ∉ direction))
              (SortCall.keys stage) written := by
  intro outcome patch
  refine ⟨?_, (String.toList_ofList ..).symm, ?_, ?_⟩
  · exact (Patch.before_ofStages ..).trans (by rw [layout, Layout.cells_ofCells, text_cells])
  · intro transformation h
    have h : (if patch.changes.isEmpty then none
        else some ⟨"sort_syntax", patch.changes, SortCall.rationale⟩) = some transformation := h
    split at h
    · simp at h
    · rw [← Option.some.inj h]
  · intro found replacement hchange
    have hpieces := (List.mem_cons.mp hchange).resolve_left (by simp)
    obtain ⟨stage, hstage, hpiece⟩ := List.mem_flatMap.mp hpieces
    rw [Stage.pieces] at hpiece
    cases hmend : SortCall.mendStage? stage with
    | none => simp [hmend] at hpiece
    | some new =>
        obtain ⟨hverb, -, hnew⟩ := SortCall.mendStage?_eq_some hmend
        obtain ⟨rfl, rfl⟩ : found = stage.text ∧ replacement = new := by simpa [hmend] using hpiece
        refine ⟨stage, hstage, hverb, rfl, _, hnew, ?_⟩
        refine (SortCall.forall₂_mends (SortCall.keys stage)).imp fun key new hmends => ?_
        cases hmends with
        | kept h => exact .inl ⟨h, rfl⟩
        | directed h => exact .inr ⟨_, _, h, by simp [SortCall.directed], h.direction_iff⟩

/-- A keyword with a long s is taken for the keyword and written as it stands. -/
theorem sortCall_writes_long_s :
    (sortCall.apply {} "sort a deſc").query = "sort deſc(a)" ∧ isCallable "deſc" = false := by
  decide +kernel

end OpalRepair
