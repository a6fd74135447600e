import Mathlib
import OpalRepair.Proofs.Json.Spelling
import OpalRepair.Settings.Json

/-!
# Settings spelled in JSON

Settings can be written down in JSON as an object of their fields, in any order and with or without
those that have their standard values, or as an array of all fields.  Whichever way they are written
and spelled, they are read back, and refused only if they are not usable.

Main statement: `ofJson_written`.
-/

namespace OpalRepair

open Json

theorem Field.ofName?_name (field : Field) : Field.ofName? field.name = some field := by
  cases field <;> decide

theorem Field.mem_all (field : Field) : field ∈ Field.all := by
  cases field <;> decide

namespace Settings

/-! ## Written settings -/

def listed : List (List Token) → List Token
  | [] => []
  | first :: others => first ++ others.flatMap (.comma :: ·)

def inBrackets (items : List (List Token)) : List Token :=
  .openBracket :: (listed items ++ [.closeBracket])

def inBraces (items : List (List Token)) : List Token :=
  .openBrace :: (listed items ++ [.closeBrace])

def natural (n : Nat) : List Token := [.number (.integer n)]

def valueTokens (settings : Settings) : Field → List Token
  | .maxStages => natural settings.maxStages
  | .maxNestingDepth => natural settings.maxNestingDepth
  | .maxSuggestions => natural settings.maxSuggestions
  | .passRounds => natural settings.passRounds
  | .disabledPasses => inBrackets (settings.disabledPasses.map fun name => [.string name.toList])

def memberTokens (settings : Settings) (field : Field) : List Token :=
  .string field.name.toList :: .colon :: settings.valueTokens field

def IsStandard (settings : Settings) : Field → Prop
  | .maxStages => settings.maxStages = ({} : Settings).maxStages
  | .maxNestingDepth => settings.maxNestingDepth = ({} : Settings).maxNestingDepth
  | .maxSuggestions => settings.maxSuggestions = ({} : Settings).maxSuggestions
  | .passRounds => settings.passRounds = ({} : Settings).passRounds
  | .disabledPasses => settings.disabledPasses = ({} : Settings).disabledPasses

/-- The ways to write settings down. -/
inductive Written (settings : Settings) : List Token → Prop
  /-- Fields in any order; the ones left out have their standard values. -/
  | object {fields : List Field} : fields.Nodup →
      (∀ field, field ∉ fields → settings.IsStandard field) →
      Written settings (inBraces (fields.map settings.memberTokens))
  /-- All fields in their own order. -/
  | array : Written settings (inBrackets (Field.all.map settings.valueTokens))

structure Fits (settings : Settings) : Prop where
  maxStages : settings.maxStages < 2 ^ 64
  maxNestingDepth : settings.maxNestingDepth < 2 ^ 64
  maxSuggestions : settings.maxSuggestions < 2 ^ 64
  passRounds : settings.passRounds < 2 ^ 64

/-! ## Values -/

theorem readNumber_natural (n : Nat) (rest : List Token) :
    readNumber (natural n ++ rest) = .ok (n, rest) := by
  simp [natural, readNumber]

theorem readMoreItems_eq (names : List String) (rest : List Token) :
    readMoreItems ((names.map fun name => [Token.string name.toList]).flatMap (.comma :: ·) ++
      .closeBracket :: rest) = .ok (names, rest) := by
  induction names with
  | nil => rfl
  | cons name names ih =>
      simp only [List.map_cons, List.flatMap_cons, List.cons_append, List.nil_append,
        readMoreItems, ih]
      simp [Except.map]

theorem readList_eq (names : List String) (rest : List Token) :
    readList (inBrackets (names.map fun name => [Token.string name.toList]) ++ rest) =
      .ok (names, rest) := by
  cases names with
  | nil => rfl
  | cons name names =>
      have htokens :
          inBrackets ((name :: names).map fun name => [Token.string name.toList]) ++ rest =
          .openBracket :: .string name.toList ::
            ((names.map fun name => [Token.string name.toList]).flatMap (.comma :: ·) ++
              .closeBracket :: rest) := by
        simp [inBrackets, listed]
      rw [htokens, readList, readItems, readMoreItems_eq]
      simp [Except.map]

def known (settings : Settings) (fields : List Field) : Draft where
  maxStages := if .maxStages ∈ fields then some settings.maxStages else none
  maxNestingDepth := if .maxNestingDepth ∈ fields then some settings.maxNestingDepth else none
  maxSuggestions := if .maxSuggestions ∈ fields then some settings.maxSuggestions else none
  passRounds := if .passRounds ∈ fields then some settings.passRounds else none
  disabledPasses := if .disabledPasses ∈ fields then some settings.disabledPasses else none

theorem known_nil (settings : Settings) : settings.known [] = {} := rfl

theorem has_known (settings : Settings) (fields : List Field) (field : Field) :
    (settings.known fields).has field = decide (field ∈ fields) := by
  cases field <;> simp only [Draft.has, known] <;> split <;> simp_all

theorem getD_known {α : Type} {field : Field} {fields : List Field} {value standard : α}
    (h : field ∉ fields → value = standard) :
    (if field ∈ fields then some value else none).getD standard = value := by
  split
  · rfl
  · rename_i hfield
    exact (h hfield).symm

theorem settings_known {settings : Settings} {fields : List Field}
    (h : ∀ field, field ∉ fields → settings.IsStandard field) :
    (settings.known fields).settings = settings := by
  simp only [Draft.settings, known]
  rw [getD_known (h .maxStages), getD_known (h .maxNestingDepth), getD_known (h .maxSuggestions),
    getD_known (h .passRounds), getD_known (h .disabledPasses)]

theorem readField_valueTokens (settings : Settings) (fields : List Field) (field : Field)
    (rest : List Token) :
    readField (settings.known fields) field (settings.valueTokens field ++ rest) =
      .ok (settings.known (field :: fields), rest) := by
  cases field <;>
    simp [readField, valueTokens, readNumber_natural, readList_eq, Except.map, known]

/-! ## Objects -/

theorem readMember_memberTokens (settings : Settings) {fields : List Field} {field : Field}
    (hfield : field ∉ fields) (rest : List Token) :
    readMember (settings.known fields) field.name
        (.colon :: (settings.valueTokens field ++ rest)) =
      .ok (settings.known (field :: fields), rest) := by
  rw [readMember, Field.ofName?_name]
  simp only [has_known, hfield, decide_false, Bool.false_eq_true, if_false]
  exact readField_valueTokens settings fields field rest

theorem readMoreMembers_eq (settings : Settings) {limit : Nat} {taken fields : List Field}
    (hlimit : fields.length ≤ limit) (hnodup : fields.Nodup)
    (hfields : ∀ field ∈ fields, field ∉ taken) (rest : List Token) :
    readMoreMembers limit (settings.known taken)
        ((fields.map settings.memberTokens).flatMap (.comma :: ·) ++ .closeBrace :: rest) =
      .ok (settings.known (fields.reverse ++ taken), rest) := by
  induction fields generalizing limit taken with
  | nil => cases limit <;> rfl
  | cons field fields ih =>
      obtain ⟨limit, rfl⟩ : ∃ n, limit = n + 1 := ⟨limit - 1, by simp at hlimit; omega⟩
      obtain ⟨hfield, hnodup⟩ := List.nodup_cons.mp hnodup
      have htaken : ∀ other ∈ fields, other ∉ field :: taken := by
        intro other hother
        rw [List.mem_cons, not_or]
        exact ⟨fun heq => hfield (heq ▸ hother), hfields other (List.mem_cons_of_mem _ hother)⟩
      have htokens : ((field :: fields).map settings.memberTokens).flatMap (.comma :: ·) ++
          .closeBrace :: rest = .comma :: .string field.name.toList :: .colon ::
            (settings.valueTokens field ++
              ((fields.map settings.memberTokens).flatMap (.comma :: ·) ++
                .closeBrace :: rest)) := by
        simp [memberTokens]
      rw [htokens, readMoreMembers, String.ofList_toList,
        readMember_memberTokens settings (hfields field List.mem_cons_self)]
      simp only [Except.bind, ih (Nat.le_of_succ_le_succ hlimit) hnodup htaken]
      simp

theorem readSettings_inBraces (settings : Settings) {fields : List Field} (hnodup : fields.Nodup) :
    readSettings (inBraces (fields.map settings.memberTokens)) =
      .ok (settings.known fields.reverse, []) := by
  cases fields with
  | nil => rfl
  | cons field fields =>
      obtain ⟨hfield, hnodup⟩ := List.nodup_cons.mp hnodup
      have hlength : fields.length ≤ Field.all.length :=
        (hnodup.subperm fun other _ => Field.mem_all other).length_le
      have htokens : inBraces ((field :: fields).map settings.memberTokens) =
          .openBrace :: .string field.name.toList :: .colon :: (settings.valueTokens field ++
            ((fields.map settings.memberTokens).flatMap (.comma :: ·) ++ [.closeBrace])) := by
        simp [inBraces, listed, memberTokens]
      have hfirst : ∀ other ∈ fields, other ∉ [field] := by
        rintro other hother hsame
        exact hfield (List.mem_singleton.mp hsame ▸ hother)
      rw [htokens, readSettings, readMembers, String.ofList_toList, ← known_nil settings,
        readMember_memberTokens settings List.not_mem_nil]
      simp only [Except.bind, readMoreMembers_eq settings hlength hnodup hfirst []]
      simp

/-! ## Arrays -/

theorem readMoreElements_eq (settings : Settings) (taken fields : List Field) (rest : List Token) :
    readMoreElements (settings.known taken) fields
        ((fields.map settings.valueTokens).flatMap (.comma :: ·) ++ .closeBracket :: rest) =
      .ok (settings.known (fields.reverse ++ taken), rest) := by
  induction fields generalizing taken with
  | nil => rfl
  | cons field fields ih =>
      simp only [List.map_cons, List.flatMap_cons, List.cons_append, List.append_assoc,
        readMoreElements, readField_valueTokens, Except.bind, ih]
      simp

theorem readElements_natural (n : Nat) (rest : List Token) :
    readElements (natural n ++ rest) = (readField {} .maxStages (natural n ++ rest)).bind
      fun (draft, rest) => readMoreElements draft Field.all.tail rest := rfl

theorem readSettings_inBrackets (settings : Settings) :
    readSettings (inBrackets (Field.all.map settings.valueTokens)) =
      .ok (settings.known Field.all.reverse, []) := by
  have htokens : inBrackets (Field.all.map settings.valueTokens) =
      .openBracket :: (settings.valueTokens .maxStages ++
        ((Field.all.tail.map settings.valueTokens).flatMap (.comma :: ·) ++ [.closeBracket])) := by
    simp [inBrackets, Field.all, listed]
  rw [htokens, readSettings]
  refine (readElements_natural settings.maxStages _).trans ?_
  rw [← known_nil settings]
  change (readField _ _ (settings.valueTokens .maxStages ++ _)).bind _ = _
  rw [readField_valueTokens]
  simp only [Except.bind, readMoreElements_eq]
  rfl

/-! ## Tokens -/

theorem legible_more {items : List (List Token)} (h : ∀ item ∈ items, Legible item) :
    Legible (items.flatMap (.comma :: ·)) ∧
      ∀ token ∈ (items.flatMap (.comma :: ·)).head?, token.isMark = true := by
  induction items with
  | nil => exact ⟨legible_nil, by simp⟩
  | cons item items ih =>
      obtain ⟨hitem, hitems⟩ := List.forall_mem_cons.mp h
      obtain ⟨hmore, hmark⟩ := ih hitems
      refine ⟨?_, by simp [Token.isMark]⟩
      rw [List.flatMap_cons, List.cons_append]
      exact (hitem.append hmore hmark).cons rfl

theorem legible_listed {items : List (List Token)} (h : ∀ item ∈ items, Legible item) :
    Legible (listed items) := by
  cases items with
  | nil => exact legible_nil
  | cons first others =>
      obtain ⟨hfirst, hothers⟩ := List.forall_mem_cons.mp h
      obtain ⟨hmore, hmark⟩ := legible_more hothers
      exact hfirst.append hmore hmark

theorem legible_enclosed {α : Type} {opening closing : Token} (hopening : opening.isMark = true)
    (hclosing : closing.isMark = true) {item : α → List Token} (h : ∀ a, Legible (item a))
    (items : List α) : Legible (opening :: (listed (items.map item) ++ [closing])) := by
  have hitems : Legible (listed (items.map item)) := by
    refine legible_listed fun tokens htokens => ?_
    obtain ⟨a, -, rfl⟩ := List.mem_map.mp htokens
    exact h a
  have hlast : Legible [closing] := legible_nil.cons hclosing
  exact (hitems.append hlast (by simpa using hclosing)).cons hopening

theorem legible_valueTokens {settings : Settings} (h : settings.Fits) (field : Field) :
    Legible (settings.valueTokens field) := by
  cases field with
  | maxStages => exact legible_natural h.maxStages
  | maxNestingDepth => exact legible_natural h.maxNestingDepth
  | maxSuggestions => exact legible_natural h.maxSuggestions
  | passRounds => exact legible_natural h.passRounds
  | disabledPasses =>
      exact legible_enclosed rfl rfl (fun name : String => legible_string name.toList) _

theorem legible_memberTokens {settings : Settings} (h : settings.Fits) (field : Field) :
    Legible (settings.memberTokens field) :=
  (legible_string field.name.toList).append ((legible_valueTokens h field).cons rfl)
    (by simp [Token.isMark])

/-! ## Settings -/

section Written

variable {settings : Settings} {form : List Token}

theorem Written.legible (h : settings.Written form) (hfits : settings.Fits) : Legible form := by
  cases h with
  | object => exact legible_enclosed rfl rfl (legible_memberTokens hfits) _
  | array => exact legible_enclosed rfl rfl (legible_valueTokens hfits) _

theorem Written.readSettings (h : settings.Written form) :
    ∃ draft, readSettings form = .ok (draft, []) ∧ draft.settings = settings := by
  cases h with
  | object hnodup hstandard =>
      refine ⟨_, readSettings_inBraces settings hnodup, settings_known fun field hfield => ?_⟩
      exact hstandard field (by simpa using hfield)
  | array =>
      refine ⟨_, readSettings_inBrackets settings, settings_known fun field hfield => ?_⟩
      exact absurd (List.mem_reverse.mpr field.mem_all) hfield

theorem Written.decodeJson (h : settings.Written form) (hfits : settings.Fits) {source : String}
    (hsource : LaidOut form source.toList) : decodeJson source = .ok settings := by
  obtain ⟨draft, hread, hdraft⟩ := h.readSettings
  rw [Settings.decodeJson, tokens_of_laidOut hsource (h.legible hfits), hread]
  exact congrArg Except.ok hdraft

theorem exists_cause_of_check {error : Error} (h : settings.check = .error error) :
    ∃ cause, error = .settings cause := by
  unfold check at h
  split_ifs at h
  · exact ⟨_, (Except.error.inj h).symm⟩
  · exact ⟨_, (Except.error.inj h).symm⟩
  · exact ⟨_, (Except.error.inj h).symm⟩
  · split at h
    · exact ⟨_, (Except.error.inj h).symm⟩
    · cases h

/-- However settings are written down, there is a text of it, and from every text of it they are
read back.  If they are not usable, the answer is what is wrong with them. -/
theorem ofJson_written (hfits : settings.Fits) (h : settings.Written form) :
    (∃ source : String, LaidOut form source.toList) ∧
      ∀ source : String, LaidOut form source.toList →
        (settings.check = .ok () → ofJson source = .ok settings) ∧
        ∀ error, settings.check = .error error →
          ofJson source = .error error ∧ ∃ cause, error = .settings cause := by
  refine ⟨exists_laidOut (h.legible hfits), fun source hsource => ?_⟩
  have hdecode := h.decodeJson hfits hsource
  refine ⟨fun hcheck => ?_, fun error hcheck => ⟨?_, exists_cause_of_check hcheck⟩⟩
  · simp [ofJson, hdecode, hcheck, Except.mapError, bind, Except.bind, pure, Except.pure]
  · simp [ofJson, hdecode, hcheck, Except.mapError, bind, Except.bind]

/-- A letter is escaped, there are blanks, and three fields are left out. -/
theorem ofJson_written_escaped :
    let settings : Settings := { maxStages := 8, disabledPasses := ["count_if"] }
    let form := inBraces ([Field.disabledPasses, .maxStages].map settings.memberTokens)
    let source := "\x7b\"disabled_passes\": [\"\\u0063ount_if\"],\n\"max_stages\":8\x7d"
    settings.Fits ∧ settings.Written form ∧ LaidOut form source.toList ∧
      settings.check = .ok () ∧ ofJson source = .ok settings := by
  intro settings form source
  have hfits : settings.Fits := ⟨by decide, by decide, by decide, by decide⟩
  have hwritten : settings.Written form := by
    refine .object (by decide) fun field hfield => ?_
    cases field with
    | maxStages | disabledPasses => simp at hfield
    | maxNestingDepth | maxSuggestions | passRounds => rfl
  have hnone : ∀ c ∈ ([] : List Char), isBlank c = true := by simp
  have hspace : ∀ c ∈ [' '], isBlank c = true := by simp [isBlank]
  have hline : ∀ c ∈ ['\n'], isBlank c = true := by simp [isBlank]
  have hpasses : SpelledText "disabled_passes".toList "disabled_passes".toList :=
    spelledText_self (by simp)
  have hstages : SpelledText "max_stages".toList "max_stages".toList := spelledText_self (by simp)
  have hname : SpelledText "count_if".toList "\\u0063ount_if".toList := by
    have hcode : HexCode ['0', '0', '6', '3'] 0x63 :=
      @HexCode.digits _ _ _ _ 0 0 6 3 ⟨by decide, .inl rfl⟩ ⟨by decide, .inl rfl⟩
        ⟨by decide, .inl rfl⟩ ⟨by decide, .inl rfl⟩
    have hrest : SpelledText "ount_if".toList "ount_if".toList := spelledText_self (by simp)
    exact .cons (.code hcode : SpelledChar 'c' _) hrest
  have hbound : Spelled (.number (.integer 8)) ['8'] := .natural 8
  have hsource : LaidOut form source.toList := by
    have hlaid : LaidOut form _ := .cons hnone .openBrace <| .cons hnone (.string hpasses) <|
      .cons hnone .colon <| .cons hspace .openBracket <| .cons hnone (.string hname) <|
      .cons hnone .closeBracket <| .cons hnone .comma <| .cons hline (.string hstages) <|
      .cons hnone .colon <| .cons hnone hbound <| .cons hnone .closeBrace <| .nil hnone
    simpa [source] using hlaid
  have hcheck : settings.check = .ok () := by decide
  exact ⟨hfits, hwritten, hsource, hcheck,
    ((ofJson_written hfits hwritten).2 source hsource).1 hcheck⟩

end Written

end Settings

end OpalRepair
