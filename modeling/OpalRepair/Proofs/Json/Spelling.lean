import Mathlib
import OpalRepair.Json.Token

/-!
# Spelling of JSON

The rules of the format: how a character may be spelled in a string, how a token may be spelled, and
how tokens make up a text.  Legible tokens can be spelled, and every text that spells them is cut
into them again.

Main statements: `exists_laidOut`, `tokens_of_laidOut`.
-/

namespace OpalRepair.Json

open Text

/-! ## The rules -/

def HexDigit (c : Char) (value : Nat) : Prop :=
  value < 16 ∧ (c = value.digitChar ∨ c = value.digitChar.toUpper)

inductive HexCode : List Char → Nat → Prop
  | digits {a b c d : Char} {i j k l : Nat} : HexDigit a i → HexDigit b j → HexDigit c k →
      HexDigit d l → HexCode [a, b, c, d] (((i * 16 + j) * 16 + k) * 16 + l)

def escapes : List (Char × Char) :=
  [('"', '"'), ('\\', '\\'), ('/', '/'), ('b', '\x08'), ('f', '\x0c'), ('n', '\n'), ('r', '\r'),
    ('t', '\t')]

/-- The spellings of a character in a string.  Control characters, quotes and backslashes have to be
escaped, any other may be; one beyond the first plane is escaped as a pair of surrogates. -/
inductive SpelledChar : Char → List Char → Prop
  | plain {c : Char} : ' ' ≤ c → c ≠ '"' → c ≠ '\\' → SpelledChar c [c]
  | escape {c letter : Char} : (letter, c) ∈ escapes → SpelledChar c ['\\', letter]
  | code {c : Char} {digits : List Char} : HexCode digits c.toNat →
      SpelledChar c ('\\' :: 'u' :: digits)
  | surrogates {c : Char} {high low : List Char} : 0x10000 ≤ c.toNat →
      HexCode high (0xD800 + (c.toNat - 0x10000) / 0x400) →
      HexCode low (0xDC00 + (c.toNat - 0x10000) % 0x400) →
      SpelledChar c ('\\' :: 'u' :: high ++ '\\' :: 'u' :: low)

inductive SpelledText : List Char → List Char → Prop
  | nil : SpelledText [] []
  | cons {c : Char} {text first rest : List Char} : SpelledChar c first → SpelledText text rest →
      SpelledText (c :: text) (first ++ rest)

/-- The spellings of a token.  Of the numbers only natural ones are needed. -/
inductive Spelled : Token → List Char → Prop
  | openBracket : Spelled .openBracket ['[']
  | closeBracket : Spelled .closeBracket [']']
  | openBrace : Spelled .openBrace ['\x7b']
  | closeBrace : Spelled .closeBrace ['\x7d']
  | comma : Spelled .comma [',']
  | colon : Spelled .colon [':']
  | natural (n : Nat) : Spelled (.number (.integer n)) (Nat.toDigits 10 n)
  | string {text body : List Char} : SpelledText text body →
      Spelled (.string text) ('"' :: (body ++ ['"']))

/-- Tokens spelled one after another, with any blanks around them. -/
inductive LaidOut : List Token → List Char → Prop
  | nil {gap : List Char} : (∀ c ∈ gap, isBlank c = true) → LaidOut [] gap
  | cons {gap first rest : List Char} {token : Token} {tokens : List Token} :
      (∀ c ∈ gap, isBlank c = true) → Spelled token first → LaidOut tokens rest →
      LaidOut (token :: tokens) (gap ++ (first ++ rest))

/-! ## Strings -/

theorem HexDigit.hexDigit? {c : Char} {value : Nat} (h : HexDigit c value) :
    hexDigit? c = some value := by
  have hdigits : ∀ value < 16, Text.hexDigit? value.digitChar = some value ∧
      Text.hexDigit? value.digitChar.toUpper = some value := by decide
  obtain ⟨hvalue, rfl | rfl⟩ := h
  · exact (hdigits value hvalue).1
  · exact (hdigits value hvalue).2

theorem HexCode.valueInBase? {digits : List Char} {code : Nat} (h : HexCode digits code) :
    valueInBase? 16 digits = some code := by
  obtain ⟨ha, hb, hc, hd⟩ := h
  simp [Text.valueInBase?, ha.hexDigit?, hb.hexDigit?, hc.hexDigit?, hd.hexDigit?,
    Option.filter_some, ha.1, hb.1, hc.1, hd.1]

theorem exists_hexCode {code : Nat} (h : code < 0x10000) : ∃ digits, HexCode digits code := by
  have hdigit (n : Nat) : HexDigit (n % 16).digitChar (n % 16) :=
    ⟨Nat.mod_lt n (by decide), .inl rfl⟩
  have hcode : ((code / 0x1000 % 16 * 16 + code / 0x100 % 16) * 16 + code / 0x10 % 16) * 16 +
      code % 16 = code := by omega
  have hdigits := HexCode.digits (hdigit (code / 0x1000)) (hdigit (code / 0x100))
    (hdigit (code / 0x10)) (hdigit code)
  exact ⟨_, hcode ▸ hdigits⟩

theorem HexCode.exists_digits {digits : List Char} {code : Nat} (h : HexCode digits code) :
    ∃ a b c d, digits = [a, b, c, d] := by
  cases h
  exact ⟨_, _, _, _, rfl⟩

theorem charOfCode?_toNat (c : Char) : charOfCode? c.toNat = some c := by
  have hvalid : c.toNat.isValidChar := c.valid
  rw [charOfCode?, dif_pos hvalid]
  rfl

def prepend (c : Char) (read : List Char × List Char) : List Char × List Char :=
  (c :: read.1, read.2)

theorem stringBody?_code {c : Char} {digits : List Char} (h : HexCode digits c.toNat)
    (rest : List Char) :
    stringBody? ('\\' :: 'u' :: (digits ++ rest)) = (stringBody? rest).map (prepend c) := by
  obtain ⟨a, b, d, e, rfl⟩ := h.exists_digits
  have hvalid : c.toNat.isValidChar := c.valid
  have hplane : isHighSurrogate c.toNat = false := by
    rw [Nat.isValidChar] at hvalid
    simp only [isHighSurrogate, Bool.and_eq_false_iff, decide_eq_false_iff_not]
    omega
  simp only [List.cons_append, List.nil_append]
  rw [stringBody?, h.valueInBase?, Option.bind_some, hplane, if_neg (by simp), charOfCode?_toNat]
  rfl

theorem stringBody?_surrogates {c : Char} {high low : List Char} {first second : Nat}
    (hhigh : HexCode high first) (hlow : HexCode low second)
    (hfirst : isHighSurrogate first = true) (hsecond : isLowSurrogate second = true)
    (hcode : 0x10000 + (first - 0xD800) * 0x400 + (second - 0xDC00) = c.toNat) (rest : List Char) :
    stringBody? ('\\' :: 'u' :: (high ++ '\\' :: 'u' :: (low ++ rest))) =
      (stringBody? rest).map (prepend c) := by
  obtain ⟨a, b, d, e, rfl⟩ := hhigh.exists_digits
  obtain ⟨f, g, i, j, rfl⟩ := hlow.exists_digits
  simp only [List.cons_append, List.nil_append]
  rw [stringBody?, hhigh.valueInBase?, Option.bind_some, if_pos hfirst]
  split
  · rename_i heq
    simp only [List.cons.injEq] at heq
    obtain ⟨-, -, rfl, rfl, rfl, rfl, rfl⟩ := heq
    rw [hlow.valueInBase?, Option.filter_some, hsecond, if_pos rfl, Option.bind_some, hcode,
      charOfCode?_toNat]
    rfl
  · rename_i hne
    exact absurd rfl (hne _ _ _ _ _)

theorem surrogates_toNat {c : Char} (hc : 0x10000 ≤ c.toNat) :
    isHighSurrogate (0xD800 + (c.toNat - 0x10000) / 0x400) = true ∧
      isLowSurrogate (0xDC00 + (c.toNat - 0x10000) % 0x400) = true ∧
      0x10000 + (0xD800 + (c.toNat - 0x10000) / 0x400 - 0xD800) * 0x400 +
        (0xDC00 + (c.toNat - 0x10000) % 0x400 - 0xDC00) = c.toNat := by
  have hvalid : c.toNat.isValidChar := c.valid
  rw [Nat.isValidChar] at hvalid
  simp only [isHighSurrogate, isLowSurrogate, Bool.and_eq_true, decide_eq_true_eq]
  omega

theorem SpelledChar.stringBody? {c : Char} {spelling : List Char} (h : SpelledChar c spelling)
    (rest : List Char) :
    stringBody? (spelling ++ rest) = (stringBody? rest).map (prepend c) := by
  cases h with
  | plain hcontrol hquote hbackslash =>
      rw [List.singleton_append, Json.stringBody?]
      · rw [if_neg (by simpa [hbackslash] using hcontrol)]
        rfl
      · exact hquote
      · exact fun _ _ _ _ _ hc => absurd hc hbackslash
      · exact fun _ _ hc => absurd hc hbackslash
  | escape hletter =>
      have hshort : ∀ entry ∈ escapes, shortEscape? entry.1 = some entry.2 ∧ entry.1 ≠ 'u' := by
        decide
      obtain ⟨hlookup, hu⟩ := hshort _ hletter
      rw [List.cons_append, List.singleton_append, Json.stringBody?]
      · rw [hlookup]
        rfl
      · exact fun _ _ _ _ _ hc => absurd hc hu
  | code hcode => exact stringBody?_code hcode rest
  | surrogates hc hhigh hlow =>
      obtain ⟨hfirst, hsecond, hcode⟩ := surrogates_toNat hc
      simpa using stringBody?_surrogates hhigh hlow hfirst hsecond hcode rest

theorem SpelledText.stringBody? {text body : List Char} (h : SpelledText text body)
    (rest : List Char) : stringBody? (body ++ '"' :: rest) = some (text, rest) := by
  induction h with
  | nil => rfl
  | cons hfirst _ ih =>
      rw [List.append_assoc, hfirst.stringBody?, ih]
      rfl

/-- Every character has a spelling: what cannot stand for itself is escaped. -/
theorem exists_spelledChar (c : Char) : ∃ spelling, SpelledChar c spelling := by
  by_cases hquote : c = '"'
  · exact ⟨['\\', '"'], .escape (by simp [hquote, escapes])⟩
  by_cases hbackslash : c = '\\'
  · exact ⟨['\\', '\\'], .escape (by simp [hbackslash, escapes])⟩
  by_cases hcontrol : ' ' ≤ c
  · exact ⟨[c], .plain hcontrol hquote hbackslash⟩
  · have hcode : c.toNat < 32 := not_le.mp hcontrol
    obtain ⟨digits, hdigits⟩ := exists_hexCode (show c.toNat < 0x10000 by omega)
    exact ⟨_, .code hdigits⟩

theorem exists_spelledText (text : List Char) : ∃ body, SpelledText text body := by
  induction text with
  | nil => exact ⟨[], .nil⟩
  | cons c text ih =>
      obtain ⟨first, hfirst⟩ := exists_spelledChar c
      obtain ⟨rest, hrest⟩ := ih
      exact ⟨first ++ rest, .cons hfirst hrest⟩

theorem spelledText_self {text : List Char}
    (h : ∀ c ∈ text, ' ' ≤ c ∧ c ≠ '"' ∧ c ≠ '\\') : SpelledText text text := by
  induction text with
  | nil => exact .nil
  | cons c text ih =>
      obtain ⟨⟨hcontrol, hquote, hbackslash⟩, htext⟩ := List.forall_mem_cons.mp h
      exact .cons (.plain hcontrol hquote hbackslash) (ih htext)

/-! ## Numbers -/

/-- What may follow a number: nothing that continues it. -/
def EndsNumber (rest : List Char) : Prop :=
  ∀ c ∈ rest.head?, c.isDigit = false ∧ c ≠ '.' ∧ c ≠ 'e' ∧ c ≠ 'E'

theorem head_toDigits {n : Nat} (h : 0 < n) : (Nat.toDigits 10 n).head? ≠ some '0' := by
  induction n using Nat.strong_induction_on with
  | _ n ih =>
      rcases Nat.lt_or_ge n 10 with hlt | hge
      · rw [Nat.toDigits_of_lt_base hlt]
        simpa using h.ne'
      · have hquotient : 0 < n / 10 := Nat.div_pos hge (by decide)
        have hhead := ih (n / 10) (Nat.div_lt_self h (by decide)) hquotient
        rw [Nat.toDigits_of_base_le (by decide) hge]
        rw [List.head?_append_of_ne_nil _ Nat.toDigits_ne_nil]
        exact hhead

theorem le_ofDigitChars (digits : List Char) (number : Nat) :
    number ≤ Nat.ofDigitChars 10 digits number := by
  induction digits generalizing number with
  | nil => exact le_rfl
  | cons c digits ih =>
      rw [Nat.ofDigitChars_cons]
      exact le_trans (by omega) (ih _)

theorem absorb_cons {number : Nat} {c : Char}
    (h : number * 10 + (c.toNat - '0'.toNat) < 2 ^ 64) (digits : List Char) :
    absorb number (c :: digits) = absorb (number * 10 + (c.toNat - '0'.toNat)) digits :=
  if_pos h

theorem absorb_eq {number : Nat} {digits : List Char}
    (h : Nat.ofDigitChars 10 digits number < 2 ^ 64) :
    absorb number digits = (Nat.ofDigitChars 10 digits number, []) := by
  induction digits generalizing number with
  | nil => rfl
  | cons c digits ih =>
      rw [Nat.ofDigitChars_cons, Nat.mul_comm] at h ⊢
      rw [absorb_cons (lt_of_le_of_lt (le_ofDigitChars _ _) h), ih h]

theorem digits?_append {digits rest : List Char} (hne : digits ≠ [])
    (hdigits : ∀ c ∈ digits, c.isDigit = true) (hrest : EndsNumber rest) :
    digits? (digits ++ rest) = some (digits, rest) := by
  have htake : rest.takeWhile Char.isDigit = [] ∧ rest.dropWhile Char.isDigit = rest := by
    cases rest with
    | nil => exact ⟨rfl, rfl⟩
    | cons c rest => simp [(hrest c rfl).1]
  rw [digits?, List.takeWhile_append_of_pos hdigits, List.dropWhile_append_of_pos hdigits, htake.1,
    htake.2, List.append_nil]
  cases digits with
  | nil => contradiction
  | cons c digits => rfl

theorem numeral?_toDigits (n : Nat) {rest : List Char} (hrest : EndsNumber rest) :
    numeral? (Nat.toDigits 10 n ++ rest) = some (⟨false, Nat.toDigits 10 n, [], none⟩, rest) := by
  have hdigits : ∀ c ∈ Nat.toDigits 10 n, c.isDigit = true := fun c hc =>
    Nat.isDigit_of_mem_toDigits (by decide) (by decide) hc
  have hread := digits?_append Nat.toDigits_ne_nil hdigits hrest
  have hzero : (Nat.toDigits 10 n).length == 1 || (Nat.toDigits 10 n).head? != some '0' := by
    rcases Nat.eq_zero_or_pos n with rfl | hpos
    · rfl
    · simp [head_toDigits hpos]
  have hsign : ((Nat.toDigits 10 n ++ rest).head? == some '-') = false := by
    rw [List.head?_append_of_ne_nil _ Nat.toDigits_ne_nil, beq_eq_false_iff_ne]
    intro hhead
    have hdigit := hdigits '-' (List.mem_of_mem_head? hhead)
    exact absurd hdigit (by decide)
  have hfraction : fraction? rest = some ([], rest) := by
    cases rest with
    | nil => rfl
    | cons c rest =>
        rw [fraction?]
        exact fun _ hc => (hrest c rfl).2.1 (List.cons.inj hc).1
  have hexponent : exponent? rest = some (none, rest) := by
    cases rest with
    | nil => rfl
    | cons c rest => rw [exponent?, if_neg (by simpa using (hrest c rfl).2.2)]
  rw [numeral?]
  simp only [hsign]
  simp [whole?, hread, hzero, Option.filter_some, hfraction, hexponent]

theorem value?_toDigits {n : Nat} (h : n < 2 ^ 64) :
    Numeral.value? ⟨false, Nat.toDigits 10 n, [], none⟩ = some (.integer n) := by
  have hvalue : Nat.ofDigitChars 10 (Nat.toDigits 10 n) 0 = n := Nat.ofDigitChars_ten_toDigits
  have habsorb := absorb_eq (hvalue.symm ▸ h : Nat.ofDigitChars 10 (Nat.toDigits 10 n) 0 < 2 ^ 64)
  rw [Numeral.value?, habsorb, hvalue]
  rfl

/-! ## Tokens -/

def Token.isMark : Token → Bool
  | .openBracket | .closeBracket | .openBrace | .closeBrace | .comma | .colon => true
  | .null | .bool _ | .number _ | .string _ | .malformed => false

def Token.Fits (token : Token) : Prop := ∀ n : Nat, token = .number (.integer n) → n < 2 ^ 64

/-- Tokens that can be spelled and told apart without blanks: numbers fit, and no two values stand
next to each other. -/
structure Legible (tokens : List Token) : Prop where
  spelled : ∀ token ∈ tokens, ∃ spelling, Spelled token spelling
  fits : ∀ token ∈ tokens, token.Fits
  separate : tokens.IsChain fun a b => a.isMark ∨ b.isMark

theorem exists_spelled_of_isMark {mark : Token} (h : mark.isMark = true) :
    ∃ spelling, Spelled mark spelling := by
  cases mark with
  | openBracket => exact ⟨_, .openBracket⟩
  | closeBracket => exact ⟨_, .closeBracket⟩
  | openBrace => exact ⟨_, .openBrace⟩
  | closeBrace => exact ⟨_, .closeBrace⟩
  | comma => exact ⟨_, .comma⟩
  | colon => exact ⟨_, .colon⟩
  | null | bool | number | string | malformed => simp [Token.isMark] at h

theorem legible_nil : Legible [] := ⟨by simp, by simp, List.isChain_nil⟩

theorem legible_singleton {token : Token} {spelling : List Char} (hspelled : Spelled token spelling)
    (hfits : token.Fits) : Legible [token] :=
  ⟨List.forall_mem_singleton.mpr ⟨spelling, hspelled⟩, List.forall_mem_singleton.mpr hfits,
    List.isChain_singleton _⟩

theorem Legible.cons {mark : Token} {tokens : List Token} (hmark : mark.isMark = true)
    (h : Legible tokens) : Legible (mark :: tokens) := by
  have hfits : mark.Fits := by
    rintro n rfl
    simp [Token.isMark] at hmark
  exact ⟨List.forall_mem_cons.mpr ⟨exists_spelled_of_isMark hmark, h.spelled⟩,
    List.forall_mem_cons.mpr ⟨hfits, h.fits⟩,
    List.isChain_cons.mpr ⟨fun _ _ => .inl hmark, h.separate⟩⟩

theorem Legible.append {a b : List Token} (ha : Legible a) (hb : Legible b)
    (hmark : ∀ token ∈ b.head?, token.isMark = true) : Legible (a ++ b) :=
  ⟨List.forall_mem_append.mpr ⟨ha.spelled, hb.spelled⟩,
    List.forall_mem_append.mpr ⟨ha.fits, hb.fits⟩, List.isChain_append.mpr
    ⟨ha.separate, hb.separate, fun _ _ next hnext => .inr (hmark next hnext)⟩⟩

theorem legible_natural {n : Nat} (h : n < 2 ^ 64) : Legible [.number (.integer n)] := by
  refine legible_singleton (.natural n) fun m hm => ?_
  simp only [Token.number.injEq, Number.integer.injEq, Nat.cast_inj] at hm
  exact hm ▸ h

theorem legible_string (text : List Char) : Legible [.string text] := by
  obtain ⟨body, hbody⟩ := exists_spelledText text
  exact legible_singleton (.string hbody) nofun

/-! ### Reading -/

theorem plain_of_isDigit {c : Char} (h : c.isDigit = true) :
    punctuation? c = none ∧ isBlank c = false ∧ c ≠ '"' := by
  refine ⟨?_, ?_, ?_⟩
  · rw [punctuation?] <;> (rintro rfl; exact absurd h (by decide))
  · simp only [isBlank, Bool.or_eq_false_iff, beq_eq_false_iff_ne]
    refine ⟨⟨⟨?_, ?_⟩, ?_⟩, ?_⟩ <;> (rintro rfl; exact absurd h (by decide))
  · rintro rfl
    exact absurd h (by decide)

theorem Spelled.tokenAt? {token : Token} {spelling : List Char} (h : Spelled token spelling)
    (hfits : token.Fits) {rest : List Char} (hrest : token.isMark = false → EndsNumber rest) :
    ∃ c more, spelling = c :: more ∧ isBlank c = false ∧
      tokenAt? c (more ++ rest) = some (token, rest) := by
  cases h with
  | openBracket | closeBracket | openBrace | closeBrace | comma | colon =>
      exact ⟨_, [], rfl, rfl, rfl⟩
  | natural n =>
      obtain ⟨c, more, hdigits⟩ := List.exists_cons_of_ne_nil (@Nat.toDigits_ne_nil n 10)
      have hdigit : c.isDigit = true :=
        Nat.isDigit_of_mem_toDigits (by decide) (by decide) (hdigits ▸ List.mem_cons_self)
      obtain ⟨hpunctuation, hblank, hquote⟩ := plain_of_isDigit hdigit
      have hnumeral := numeral?_toDigits n (hrest rfl)
      refine ⟨c, more, hdigits, hblank, ?_⟩
      rw [hdigits, List.cons_append] at hnumeral
      rw [Json.tokenAt?, hpunctuation]
      simp only [if_neg hquote, if_pos (Or.inr hdigit), hnumeral, Option.bind_some]
      rw [← hdigits, value?_toDigits (hfits n rfl)]
      rfl
  | string hbody =>
      refine ⟨'"', _, rfl, rfl, ?_⟩
      rw [List.append_assoc, List.singleton_append, Json.tokenAt?]
      simp [punctuation?, hbody.stringBody?]

/-! ## Texts -/

theorem tokensFrom_skip (part rest : List Char) :
    tokensFrom part.length (part ++ rest) = tokensFrom 0 rest := by
  induction part with
  | nil => rfl
  | cons c part ih => exact ih

theorem tokens_blank {gap : List Char} (h : ∀ c ∈ gap, isBlank c = true) (rest : List Char) :
    tokens (gap ++ rest) = tokens rest := by
  induction gap with
  | nil => rfl
  | cons c gap ih =>
      rw [← ih fun d hd => h d (List.mem_cons_of_mem _ hd)]
      exact if_pos (h c List.mem_cons_self)

theorem tokens_cons {c : Char} {more rest : List Char} {token : Token} (hblank : isBlank c = false)
    (htoken : tokenAt? c (more ++ rest) = some (token, rest)) :
    tokens (c :: (more ++ rest)) = token :: tokens rest := by
  rw [tokens, tokensFrom, hblank, if_neg (by simp), htoken]
  have hsize : (more ++ rest).length - rest.length = more.length := by simp
  simp only [hsize, tokensFrom_skip]
  rfl

theorem EndsNumber.blank {gap rest : List Char} (hgap : ∀ c ∈ gap, isBlank c = true)
    (hrest : EndsNumber rest) : EndsNumber (gap ++ rest) := by
  cases gap with
  | nil => exact hrest
  | cons c gap =>
      intro d hd
      obtain rfl : c = d := Option.some.inj hd
      have hblank := hgap c List.mem_cons_self
      simp only [isBlank, Bool.or_eq_true, beq_iff_eq] at hblank
      rcases hblank with ((rfl | rfl) | rfl) | rfl <;> decide

theorem Spelled.endsNumber {token : Token} {spelling : List Char} (h : Spelled token spelling)
    (hmark : token.isMark = true) (rest : List Char) : EndsNumber (spelling ++ rest) := by
  intro d hd
  cases h with
  | openBracket | closeBracket | openBrace | closeBrace | comma | colon =>
      obtain rfl := Option.some.inj hd
      decide
  | natural | string => simp [Token.isMark] at hmark

theorem LaidOut.endsNumber {tokens : List Token} {text : List Char} (h : LaidOut tokens text)
    (hmark : ∀ token ∈ tokens.head?, token.isMark = true) : EndsNumber text := by
  cases h with
  | nil hgap =>
      rw [← List.append_nil text]
      exact .blank hgap (by simp [EndsNumber])
  | cons hgap hfirst _ => exact .blank hgap (hfirst.endsNumber (hmark _ rfl) _)

theorem exists_laidOut {tokens : List Token} (h : Legible tokens) :
    ∃ source : String, LaidOut tokens source.toList := by
  obtain ⟨hspelled, -, -⟩ := h
  suffices ∃ text, LaidOut tokens text by
    obtain ⟨text, htext⟩ := this
    exact ⟨String.ofList text, by simpa using htext⟩
  induction tokens with
  | nil => exact ⟨[], .nil (by simp)⟩
  | cons token tokens ih =>
      obtain ⟨⟨first, hfirst⟩, hmore⟩ := List.forall_mem_cons.mp hspelled
      obtain ⟨rest, hrest⟩ := ih hmore
      have hgap : ∀ c ∈ ([] : List Char), isBlank c = true := by simp
      exact ⟨_, .cons hgap hfirst hrest⟩

/-- A text is cut into the tokens that it spells. -/
theorem tokens_of_laidOut {tokens : List Token} {text : List Char} (h : LaidOut tokens text)
    (hlegible : Legible tokens) : Json.tokens text = tokens := by
  obtain ⟨-, hfits, hseparate⟩ := hlegible
  induction h with
  | @nil gap hgap =>
      rw [← List.append_nil gap, tokens_blank hgap]
      rfl
  | @cons gap first rest token tokens hgap hfirst hrest ih =>
      obtain ⟨htoken, hmore⟩ := List.forall_mem_cons.mp hfits
      obtain ⟨hnext, hseparate⟩ := List.isChain_cons.mp hseparate
      have hends : token.isMark = false → EndsNumber rest := fun hvalue =>
        hrest.endsNumber fun next hmem => (hnext next hmem).resolve_left (by simp [hvalue])
      obtain ⟨c, more, rfl, hblank, hread⟩ := hfirst.tokenAt? htoken hends
      rw [tokens_blank hgap, List.cons_append, tokens_cons hblank hread, ih hmore hseparate]

end OpalRepair.Json
