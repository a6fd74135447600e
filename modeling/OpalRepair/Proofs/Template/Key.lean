import Mathlib
import OpalRepair.Proofs.Account
import OpalRepair.Proofs.Template.Path

/-!
# Sort keys around a literal

One key of a sort holds the literal.  Its direction is read off what stands around the literal, and a
keyword cannot contain it.
-/

namespace OpalRepair

open Query Text

namespace SortCall

open Template

/-! ## Keys -/

section Keys

variable {kind : Literal} {front behind rest : List Char} {s : Scanner}

theorem not_keyword (kind : Literal) (front behind content : List Char) :
    let folded := String.ofList ((trimStart (kind.between front behind content)).map foldCase)
    (folded == "asc" || folded == "desc") = false := by
  intro folded
  have hmem : kind.delimiter ∈ folded.toList := by
    rw [String.toList_ofList, Literal.trimStart_between, Literal.between, List.map_append, List.map_cons,
      List.mem_append, List.mem_cons]
    right
    left
    cases kind <;> rfl
  rw [Bool.or_eq_false_iff, beq_eq_false_iff_ne, beq_eq_false_iff_ne]
  constructor <;> intro heq <;> rw [heq] at hmem <;> revert hmem <;> cases kind <;> decide

theorem patterned?_wholePath? (hback : '\\' ∉ front) (hmode : s.mode = .code)
    (hend : (s.reach rest front).mode = .code) (behind : List Char) :
    Patterned? kind.Holds fun content => wholePath? (kind.between front behind content) := by
  rcases path?_between kind hback hmode hend behind with hnone | ⟨path, hends, hpath⟩
  · exact .none fun content _ => by rw [wholePath?, hnone]; rfl
  · rcases hends with ⟨path', more, rfl, hends⟩ | hends
    · refine .none fun content hcontent => ?_
      rw [wholePath?, hpath, hends content hcontent.2, Option.filter_some, if_neg]
      simp [Literal.between]
    · by_cases hall : pathTail .closed behind = behind
      · refine ⟨some (around kind front behind), fun content hcontent => ?_⟩
        dsimp only
        rw [wholePath?, hpath, hends content hcontent.2, hall, Option.filter_some, if_pos (by simp),
          Option.map_some, fill_around]
      · refine .none fun content hcontent => ?_
        rw [wholePath?, hpath, hends content hcontent.2, Option.filter_some, if_neg]
        intro hlength
        have hstart := pathTail_prefix .closed behind
        refine hall (hstart.eq_of_length ?_)
        simpa [Literal.between] using hlength

theorem patterned?_keywordKey? (hback : '\\' ∉ front) (hmode : s.mode = .code)
    (hend : (s.reach rest front).mode = .code) (behind : List Char) :
    Patterned? kind.Holds fun content => keywordKey? (kind.between front behind content) := by
  rcases path?_between kind hback hmode hend behind with hnone | ⟨path, hends, hpath⟩
  · exact .none fun content _ => by rw [keywordKey?, hnone]; rfl
  · rcases hends with ⟨path', more, rfl, hends⟩ | hends
    · refine .none fun content hcontent => ?_
      have hdrop : (kind.between (path' ++ more) behind content).drop path'.length =
          kind.between more behind content := by
        simp [Literal.between]
      simp only [keywordKey?, hpath, hends content hcontent.2, Option.bind_some, hdrop,
        not_keyword kind more behind content, Bool.and_false]
      rfl
    · obtain ⟨more, hmore⟩ := pathTail_prefix .closed behind
      generalize pathTail .closed behind = tail at hends hmore
      subst hmore
      have hdrop (content : List Char) : (kind.between front (tail ++ more) content).drop
          (kind.between front tail content).length = more := by
        simp [Literal.between]
      by_cases hkeyword : (more.head?.any isBlank &&
          (String.ofList ((trimStart more).map foldCase) == "asc" ||
            String.ofList ((trimStart more).map foldCase) == "desc")) = true
      · refine ⟨some (plain ((trimStart more).map Char.toLower ++ ['(']) ++
          (around kind front tail ++ plain [')'])), fun content hcontent => ?_⟩
        simp only [keywordKey?, hpath, hends content hcontent.2, Option.bind_some, hdrop]
        rw [if_pos hkeyword]
        simp [directed]
      · refine .none fun content hcontent => ?_
        simp only [keywordKey?, hpath, hends content hcontent.2, Option.bind_some, hdrop]
        rw [if_neg hkeyword]

theorem patterned?_normalize? (hback : '\\' ∉ front) (hmode : s.mode = .code)
    (hend : (s.reach rest front).mode = .code) (behind : List Char) :
    Patterned? kind.Holds fun content => normalize? (kind.between front behind content) := by
  cases front with
  | nil =>
      refine .none fun content _ => ?_
      cases kind <;> rfl
  | cons c front =>
      have hkey (content : List Char) : kind.between (c :: front) behind content =
        c :: kind.between front behind content := rfl
      by_cases hc : c = '-'
      · subst hc
        obtain ⟨blanks, hblanks, hfront⟩ := exists_blanks front
        have hplain : ∀ d ∈ '-' :: blanks, Plain d := by
          intro d hd
          rcases List.mem_cons.mp hd with rfl | hd
          · decide
          · exact plain_of_isBlank (hblanks d hd)
        have hend' : ((s.reach (trimStart front ++ rest) ('-' :: blanks)).reach rest
            (trimStart front)).mode = .code := by
          rw [← Scanner.reach_append, List.cons_append, ← hfront]
          exact hend
        obtain ⟨template?, hfield⟩ : Patterned? kind.Holds fun content =>
            wholePath? (kind.between (trimStart front) behind content) :=
          patterned?_wholePath? (fun hmem => hback (by rw [hfront]; simp [hmem]))
            (Scanner.mode_reach_plain hmode hplain _) hend' behind
        refine ⟨template?.map fun template => plain "desc(".toList ++ (template ++ plain [')']),
          fun content hcontent => ?_⟩
        have hnormal : normalize? ('-' :: kind.between front behind content) =
          (wholePath? (trimStart (kind.between front behind content))).map
            (directed "desc".toList) := rfl
        dsimp only at hfield ⊢
        rw [hkey, hnormal, Literal.trimStart_between, hfield content hcontent]
        cases template? <;> simp [directed]
      · have hnormal (content : List Char) : normalize? (kind.between (c :: front) behind content) =
            keywordKey? (kind.between (c :: front) behind content) := by
          rw [hkey, normalize?]
          intro field heq
          exact hc (List.cons.inj heq).1
        simp only [hnormal]
        exact patterned?_keywordKey? hback hmode hend behind

end Keys

/-! ## Lists of keys -/

section Lists

variable {kind : Literal} {front behind : List Cell}

theorem splitCommas_literal {row : List Cell} (hrow : ∀ cell ∈ row, cell.isLiteral = true)
    {depth : Int} {piece : List Cell} {pieces : List (List Cell)}
    (h : splitCommas depth behind = piece :: pieces) :
    splitCommas depth (row ++ behind) = (row ++ piece) :: pieces := by
  induction row with
  | nil => exact h
  | cons cell row ih =>
      have hcode := not_isCode_of_isLiteral (hrow cell (by simp))
      have hrest := ih fun other hother => hrow other (by simp [hother])
      rw [List.cons_append, splitCommas]
      simp [hcode, Cell.opens, Cell.closes, hrest]

/-- One item of a list holds the literal.  In front of it a comma ends the item before. -/
theorem exists_splitCommas (kind : Literal) (depth : Int) (front behind : List Cell) :
    ∃ pre before start body post, front = before ++ start ∧
      (pre = [] ∧ before = [] ∨ pre ≠ [] ∧ ∃ more comma, before = more ++ [comma] ∧
        comma.isCode ',' = true) ∧
      ∀ content, splitCommas depth (front ++ (literalRow kind content ++ behind)) =
        pre ++ (start ++ (literalRow kind content ++ body)) :: post := by
  induction front generalizing depth with
  | nil =>
      obtain ⟨body, post, hsplit⟩ := List.exists_cons_of_ne_nil (Bytes.splitCommas_ne_nil depth behind)
      exact ⟨[], [], [], body, post, rfl, .inl ⟨rfl, rfl⟩, fun content =>
        splitCommas_literal (fun _ => isLiteral_literalRow) hsplit⟩
  | cons cell front ih =>
      by_cases hcomma : cell.isCode ',' = true ∧ depth = 0
      · obtain ⟨pre, before, start, body, post, rfl, hbefore, hsplit⟩ := ih depth
        refine ⟨[] :: pre, cell :: before, start, body, post, rfl, .inr ⟨by simp, ?_⟩, fun content => ?_⟩
        · rcases hbefore with ⟨-, rfl⟩ | ⟨-, more, comma, rfl, hcode⟩
          · exact ⟨[], cell, rfl, hcomma.1⟩
          · exact ⟨cell :: more, comma, rfl, hcode⟩
        · rw [List.cons_append, splitCommas, if_pos hcomma, hsplit, List.cons_append]
      · obtain ⟨pre, before, start, body, post, rfl, hbefore, hsplit⟩ := ih
          (if cell.opens then depth + 1 else if cell.closes then depth - 1 else depth)
        cases pre with
        | nil =>
            obtain rfl : before = [] := by simpa using hbefore
            refine ⟨[], [], cell :: start, body, post, rfl, .inl ⟨rfl, rfl⟩, fun content => ?_⟩
            rw [List.cons_append, splitCommas, if_neg hcomma]
            dsimp only
            rw [hsplit]
            rfl
        | cons first pre =>
            obtain ⟨more, comma, rfl, hcode⟩ : ∃ more comma, before = more ++ [comma] ∧
                comma.isCode ',' = true := by simpa using hbefore
            refine ⟨(cell :: first) :: pre, cell :: (more ++ [comma]), start, body, post, rfl,
              .inr ⟨by simp, cell :: more, comma, rfl, hcode⟩, fun content => ?_⟩
            rw [List.cons_append, splitCommas, if_neg hcomma]
            dsimp only
            rw [hsplit]
            rfl

theorem map_text_listItems (row : List Cell) :
    (listItems row).map text =
      ((splitCommas 0 row).map fun piece => trim (text piece)).filter (!·.isEmpty) := by
  have hempty (piece : List Cell) : (trimCells piece).isEmpty = (trim (text piece)).isEmpty := by
    rw [← text_trimCells]
    cases trimCells piece <;> rfl
  rw [listItems]
  induction splitCommas 0 row with
  | nil => rfl
  | cons piece pieces ih =>
      rw [List.map_cons, List.map_cons, List.filter_cons, List.filter_cons, hempty]
      split
      · rw [List.map_cons, ih, text_trimCells]
      · exact ih

theorem exists_keys (kind : Literal) (front behind : List Cell) :
    ∃ pre before start body post, front = before ++ start ∧
      (before = [] ∨ ∃ more comma, before = more ++ [comma] ∧ comma.isCode ',' = true) ∧
      ∀ content, (listItems (front ++ (literalRow kind content ++ behind))).map text =
        pre ++ kind.between (trimStart (text start)) (trimEnd (text body)) content :: post := by
  obtain ⟨pre, before, start, body, post, hfront, hbefore, hsplit⟩ :=
    exists_splitCommas kind 0 front behind
  refine ⟨(pre.map fun piece => trim (text piece)).filter (!·.isEmpty), before, start, body,
    (post.map fun piece => trim (text piece)).filter (!·.isEmpty), hfront,
    hbefore.imp And.right And.right, fun content => ?_⟩
  have hkey : (!(kind.between (trimStart (text start)) (trimEnd (text body)) content).isEmpty) =
      true := by
    simp [Literal.between]
  rw [map_text_listItems, hsplit, List.map_append, List.filter_append, List.map_cons,
    Literal.text_between, Literal.trim_between, List.filter_cons, if_pos hkey]

end Lists

/-! ## Stages -/

theorem patterned?_mendKeys {kind : Literal} {front behind : List Char}
    (h : Patterned? kind.Holds fun content => normalize? (kind.between front behind content))
    (pre post : List (List Char)) :
    Patterned? kind.Holds fun content =>
      let keys := pre ++ kind.between front behind content :: post
      if keys.any fun key => (normalize? key).isSome then
        some ("sort ".toList ++
          List.intercalate ", ".toList (keys.map fun key => (normalize? key).getD key))
      else none := by
  obtain ⟨template?, h⟩ := h
  dsimp only at h
  have hmended (content : List Char) (hcontent : kind.Holds content) :
      (normalize? (kind.between front behind content)).getD (kind.between front behind content) =
        fill content (template?.getD (around kind front behind)) := by
    rw [h content hcontent]
    cases template? <;> simp
  have hany (content : List Char) (hcontent : kind.Holds content) :
      ((pre ++ kind.between front behind content :: post).any fun key => (normalize? key).isSome) =
        (pre.any (fun key => (normalize? key).isSome) ||
          (template?.isSome || post.any fun key => (normalize? key).isSome)) := by
    rw [List.any_append, List.any_cons, h content hcontent, Option.isSome_map]
  let mended (key : List Char) : Template := plain ((normalize? key).getD key)
  cases hsome : pre.any (fun key => (normalize? key).isSome) ||
      (template?.isSome || post.any fun key => (normalize? key).isSome) with
  | false =>
      refine .none fun content hcontent => ?_
      dsimp only
      rw [hany content hcontent, hsome]
      rfl
  | true =>
      refine ⟨some (plain "sort ".toList ++ List.intercalate (plain ", ".toList)
        (pre.map mended ++ template?.getD (around kind front behind) :: post.map mended)),
        fun content hcontent => ?_⟩
      dsimp only
      rw [hany content hcontent, hsome, if_pos rfl, Option.map_some, fill_append, fill_plain,
        fill_intercalate, List.map_append, List.map_cons, List.map_append, List.map_cons,
        hmended content hcontent]
      simp [mended, Function.comp_def]

section Stages

variable {kind : Literal} {query : List Char} {before start body gap : List Cell}

theorem exists_verb {pre post : List Stage} {verb : String}
    (hstages : (layout query).stages =
      pre ++ ⟨start ++ (literalRow kind [] ++ body), gap⟩ :: post)
    (hverb : Stage.verb? ⟨start, gap⟩ = some verb) :
    ∃ more last rest, start = (more ++ [last]) ++ rest ∧ text (more ++ [last]) = verb.toList ∧
      last.isLiteral = false ∧ isNameChar last.char = true := by
  have hplace : ((layout query).lead ++ pre.flatMap Stage.cells,
      (⟨start ++ (literalRow kind [] ++ body), gap⟩ : Stage)) ∈ places query := by
    rw [places_eq hstages]
    simp
  have hstage : Stage.verb? ⟨start ++ (literalRow kind [] ++ body), gap⟩ = some verb := by
    rw [Stage.verb?_literal, hverb]
  have hname : isNameChar kind.delimiter = false := by cases kind <;> decide
  obtain ⟨hrun, hne⟩ := (trimmed_of_mem_places hplace).text_of_verb? hstage
  rw [Stage.text, Literal.text_between, Literal.between, takeWhile_stop hname] at hrun
  have hstart : text start = verb.toList ++ (text start).dropWhile isNameChar := by
    rw [← hrun, List.takeWhile_append_dropWhile]
  obtain ⟨front, rest, rfl, hfront, -⟩ := row_of_text hstart
  have hchars : ∀ cell ∈ front, isNameChar cell.char = true := by
    intro cell hcell
    have hmem : cell.char ∈ verb.toList := hfront ▸ List.mem_map_of_mem hcell
    rw [← hrun] at hmem
    exact List.mem_takeWhile_imp hmem
  -- The first cell is code, and no other cell of the name opens a literal.
  have hcode : ∀ cell ∈ front, cell.isLiteral = false := by
    cases front with
    | nil => simp
    | cons first part =>
        obtain ⟨cell, _, hbody, -, hcell⟩ := exists_first_of_verb? hplace hstage
        obtain rfl : first = cell := (List.cons.inj hbody).1
        obtain ⟨after, hcells⟩ := cells_of_mem_places hplace
        have hpaint : Scanner.paint {} query = ((layout query).lead ++ pre.flatMap Stage.cells) ++
            first :: (part ++ (rest ++ (literalRow kind [] ++ body) ++ after)) := by
          simpa [cells] using hcells
        have hpart := Scanner.paint_behind_code hpaint hcell fun other hother => by
          obtain ⟨hdouble, hsingle, hslash, -⟩ :=
            (solid_of_isNameChar (hchars other (by simp [hother]))).1
          exact ⟨hdouble, hsingle, hslash⟩
        intro other hother
        rcases List.mem_cons.mp hother with rfl | hother
        · exact hcell
        · exact hpart other hother
  rcases front.eq_nil_or_concat' with rfl | ⟨more, last, rfl⟩
  · exact absurd hfront.symm hne
  · exact ⟨more, last, rest, rfl, hfront, hcode last (by simp), hchars last (by simp)⟩

theorem exists_scanner {front key behind : List Cell} {last opening : Cell}
    (hcells : cells query = front ++ last :: (key ++ opening :: behind))
    (hlast : last.isLiteral = false) (hplain : Plain last.char) (hopening : opening.role = .opening) :
    ∃ (s : Scanner) (rest : List Char), s.mode = .code ∧
      (s.reach rest (trimStart (text key))).mode = .code := by
  have hpaints := paints_cells query
  rw [hcells] at hpaints
  have hmode := (Scanner.step_plain (hpaints.mode hlast) hplain (text (key ++ opening :: behind))).2.1
  have hbehind := (Scanner.paints_cons.mp (Scanner.paints_append.mp hpaints).2).2
  have hend := Scanner.mode_of_opening (hbehind.role.trans hopening)
  obtain ⟨blanks, hblanks, hkey⟩ := exists_blanks (text key)
  refine ⟨_, text (opening :: behind), Scanner.mode_reach_plain hmode (fun c hc =>
    plain_of_isBlank (hblanks c hc)) (trimStart (text key) ++ text (opening :: behind)), ?_⟩
  rw [← Scanner.reach_append, ← hkey]
  exact hend

theorem patterned?_mendStage? {pre post : List Stage} (hback : '\\' ∉ query)
    (hstages : (layout query).stages =
      pre ++ ⟨start ++ (literalRow kind [] ++ body), gap⟩ :: post) :
    Patterned? kind.Holds fun content =>
      mendStage? ⟨start ++ (literalRow kind content ++ body), gap⟩ := by
  by_cases hverb : Stage.verb? ⟨start, gap⟩ = some "sort"
  · have hsort (content : List Char) :
        Stage.hasVerb ⟨start ++ (literalRow kind content ++ body), gap⟩ "sort" = true := by
      rw [Stage.hasVerb, Stage.verb?_literal, hverb]
      rfl
    obtain ⟨more, last, rest, rfl, hname, hlast, hlastName⟩ := exists_verb hstages hverb
    have hlength : (more ++ [last]).length = 4 := by
      simpa [text] using congrArg List.length hname
    have hdrop (content : List Char) :
        ((more ++ [last]) ++ rest ++ (literalRow kind content ++ body)).drop 4 =
          rest ++ (literalRow kind content ++ body) := by
      rw [List.append_assoc, ← hlength, List.drop_left]
    obtain ⟨front, before, key, behind, back, rfl, hbefore, hkeys⟩ := exists_keys kind rest body
    -- The key starts behind the verb or behind a comma.
    have hplace : ((layout query).lead ++ pre.flatMap Stage.cells, (⟨(more ++ [last]) ++
        (before ++ key) ++ (literalRow kind [] ++ body), gap⟩ : Stage)) ∈ places query := by
      rw [places_eq hstages]
      simp
    obtain ⟨after, hcells⟩ := cells_of_mem_places hplace
    obtain ⟨s, behindKey, hmode, hend⟩ : ∃ (s : Scanner) (rest : List Char), s.mode = .code ∧
        (s.reach rest (trimStart (text key))).mode = .code := by
      have hopening : ∃ close, literalRow kind [] = ⟨kind.delimiter, .opening⟩ :: close := ⟨_, rfl⟩
      obtain ⟨close, hopening⟩ := hopening
      rcases hbefore with rfl | ⟨start, comma, rfl, hcomma⟩
      · have hrow : cells query = ((layout query).lead ++ pre.flatMap Stage.cells ++ more) ++
            last :: (key ++ ⟨kind.delimiter, .opening⟩ :: (close ++ body ++ after)) := by
          rw [hcells, hopening]
          simp
        exact exists_scanner hrow hlast (solid_of_isNameChar hlastName).1 rfl
      · have hrow : cells query =
            ((layout query).lead ++ pre.flatMap Stage.cells ++ (more ++ [last]) ++ start) ++
              comma :: (key ++ ⟨kind.delimiter, .opening⟩ :: (close ++ body ++ after)) := by
          rw [hcells, hopening]
          simp
        obtain ⟨hchar, hcode⟩ : comma.char = ',' ∧ comma.isLiteral = false := by
          simpa [Cell.isCode] using hcomma
        exact exists_scanner hrow hcode (by rw [hchar]; decide) rfl
    have hkeyBack : '\\' ∉ trimStart (text key) := by
      intro hmem
      have hkey : '\\' ∈ text key := (List.dropWhile_suffix _).mem hmem
      refine hback ?_
      rw [← text_cells query, hcells]
      simp [hkey]
    have hkey : Patterned? kind.Holds fun content =>
        normalize? (kind.between (trimStart (text key)) (trimEnd (text behind)) content) :=
      patterned?_normalize? hkeyBack hmode hend _
    have hpattern := patterned?_mendKeys hkey front back
    simpa only [mendStage?, hsort, hdrop, hkeys, Bool.not_true, Bool.false_eq_true, if_false] using hpattern
  · refine .none fun content _ => ?_
    have hother : Stage.hasVerb ⟨start ++ (literalRow kind content ++ body), gap⟩ "sort" = false := by
      rw [Stage.hasVerb, Stage.verb?_literal]
      simpa using hverb
    simp [mendStage?, hother]

end Stages

end SortCall

end OpalRepair
