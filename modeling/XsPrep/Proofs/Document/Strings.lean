import XsPrep.Proofs.Text.Encoding
import XsPrep.Document.Quoted

/-!
# Strings of a document are read back

A valid text is written code point by code point: as an escape of two characters, as an
escape with four digits, or as it is.  Each of the three is read back as its code point,
whatever follows (`Shown.readFrom`).  No code point that is written with four digits is
half a surrogate pair, so such an escape is never taken together with the next one.
-/

namespace XsPrep.Document

variable {code : Nat} {letter : UInt8} {codes : List Nat}

/-- The character of a quote. -/
def quoteCharacter : Character := ⟨Code.quote, [0x22]⟩

/-! ## Escapes -/

theorem readEscape?_of_writtenEscape? (h : writtenEscape? code = some letter) :
    letter < 0x80 ∧ letter.toNat ≠ 0x75 ∧ readEscape? letter.toNat = some code := by
  unfold writtenEscape? at h
  split at h
  case h_8 => cases h
  all_goals
    obtain rfl := Option.some.inj h
    decide

theorem hexDigit_spec (n : Nat) :
    Text.hexDigit n < 0x80 ∧ digitValue? (Text.hexDigit n).toNat = some (n % 16) := by
  have hall : ∀ d < 16, Text.ofAscii (Nat.digitChar d) < 0x80 ∧
      digitValue? (Text.ofAscii (Nat.digitChar d)).toNat = some d := by decide
  exact hall (n % 16) (Nat.mod_lt n (by decide))

theorem hexadecimal_four (code : Nat) :
    Text.hexadecimal 4 code = [Text.hexDigit (code / 16 / 16 / 16), Text.hexDigit (code / 16 / 16),
      Text.hexDigit (code / 16), Text.hexDigit code] := rfl

theorem length_hexadecimal_four (code : Nat) :
    (Text.hexadecimal 4 code).characters.length = 4 := by
  rw [hexadecimal_four, Text.characters_ascii (hexDigit_spec _).1,
    Text.characters_ascii (hexDigit_spec _).1, Text.characters_ascii (hexDigit_spec _).1,
    Text.characters_ascii (hexDigit_spec _).1, Text.characters_nil]
  rfl

/-- The four digits of a code point in the first plane are read as this code point. -/
theorem fourDigits?_hexadecimal (h : code < 0x10000) (cs : List Character) :
    fourDigits? ((Text.hexadecimal 4 code).characters ++ cs) = some code := by
  obtain ⟨ha, hreada⟩ := hexDigit_spec (code / 16 / 16 / 16)
  obtain ⟨hb, hreadb⟩ := hexDigit_spec (code / 16 / 16)
  obtain ⟨hc, hreadc⟩ := hexDigit_spec (code / 16)
  obtain ⟨hd, hreadd⟩ := hexDigit_spec code
  rw [hexadecimal_four, Text.characters_ascii ha, Text.characters_ascii hb,
    Text.characters_ascii hc, Text.characters_ascii hd]
  simp only [List.cons_append, fourDigits?, hreada, hreadb, hreadc, hreadd, Option.bind_eq_bind,
    Option.bind_some, Option.some.injEq]
  omega

/-- A code point below the surrogates is no half of a pair. -/
theorem surrogatePair?_eq_none (h : code < 0xD800) : surrogatePair? code = fun _ => none := by
  funext low
  exact if_neg (by omega)

theorem lt_of_isWrittenInHex (h : isWrittenInHex code = true) : code < 0xD800 := by
  simp only [isWrittenInHex, Bool.or_eq_true, decide_eq_true_eq, beq_iff_eq] at h
  omega

/-! ## One code point -/

/-- How a code point can be shown. -/
inductive Shown (code : Nat) : Text → Prop where
  | letter {letter : UInt8} (hascii : letter < 0x80) (hletter : letter.toNat ≠ 0x75)
      (hread : readEscape? letter.toNat = some code) : Shown code [Byte.backslash, letter]
  | digits (hlow : code < 0xD800) : Shown code (bytes "\\u" ++ Text.hexadecimal 4 code)
  | plain (hquote : code ≠ Code.quote) (hcontrol : ¬code < 0x20)
      (hbackslash : code ≠ Code.backslash) : Shown code (Text.encode code)

theorem shown_writtenCharacter (code : Nat) : Shown code (writtenCharacter (.ofCode code)) := by
  rw [writtenCharacter]
  split
  · rename_i letter hletter
    obtain ⟨hascii, hne, hread⟩ := readEscape?_of_writtenEscape? hletter
    exact .letter hascii hne hread
  · rename_i hnone
    rw [Character.isStray_ofCode, Bool.false_or]
    split
    · rename_i hhex
      exact .digits (lt_of_isWrittenInHex hhex)
    · rename_i hhex
      refine .plain ?_ ?_ ?_
      · rintro rfl
        cases hnone
      · intro hcontrol
        apply hhex
        simp [isWrittenInHex, Character.ofCode, hcontrol]
      · rintro rfl
        cases hnone

theorem Shown.isValid {t : Text} (h : Shown code t) (hscalar : Code.IsScalar code) :
    t.IsValid := by
  cases h with
  | letter hascii =>
    refine .of_ascii ?_
    simpa using ⟨(by decide : Byte.backslash < 0x80), hascii⟩
  | digits =>
    refine .append (.of_ascii (by decide +kernel)) (.of_ascii ?_)
    simp [hexadecimal_four, (hexDigit_spec _).1]
  | plain => exact .encode hscalar

/-- A code point is read back as it is shown. -/
theorem Shown.readFrom {t : Text} (h : Shown code t) (hscalar : Code.IsScalar code)
    (pieces : List Text) (n : Nat) (cs : List Character) :
    readFrom pieces n (t.characters ++ cs) =
      Document.readFrom (Text.encode code :: pieces) (n + t.characters.length) cs := by
  cases h with
  | letter hascii hletter hread =>
    rw [Text.characters_ascii (by decide), Text.characters_ascii hascii, Text.characters_nil]
    rw [List.cons_append, List.cons_append, List.nil_append, Document.readFrom]
    rw [if_neg (by decide), if_neg (by decide), if_pos (by decide), escape?, if_neg hletter, hread]
    rfl
  | digits hlow =>
    have hdigits : fourDigits? ((Text.hexadecimal 4 code).characters ++ cs) = some code :=
      fourDigits?_hexadecimal (by omega) cs
    have hlength := length_hexadecimal_four code
    have hescape : escape? (⟨0x75, [0x75]⟩ :: ((Text.hexadecimal 4 code).characters ++ cs)) =
        some (Text.encode code, 5) := by
      rw [escape?, if_pos rfl, hdigits]
      dsimp only
      rw [surrogatePair?_eq_none hlow, Option.bind_fun_none]
    have hcharacters : (bytes "\\u" ++ Text.hexadecimal 4 code).characters =
        ⟨Code.backslash, [Byte.backslash]⟩ :: ⟨0x75, [0x75]⟩ ::
          (Text.hexadecimal 4 code).characters := by
      show Text.characters (Byte.backslash :: 0x75 :: Text.hexadecimal 4 code) = _
      rw [Text.characters_ascii (by decide), Text.characters_ascii (by decide)]
      rfl
    rw [hcharacters, List.cons_append, List.cons_append, Document.readFrom, if_neg (by decide),
      if_neg (by decide), if_pos (by decide), hescape]
    dsimp only
    rw [List.drop_succ_cons, List.drop_left' hlength, List.length_cons, List.length_cons, hlength]
  | plain hquote hcontrol hbackslash =>
    have hcharacters := Text.characters_encode_append hscalar []
    rw [List.append_nil, Text.characters_nil] at hcharacters
    rw [hcharacters, List.cons_append, List.nil_append, Document.readFrom, Character.code_ofCode,
      if_neg hquote, if_neg hcontrol, if_neg hbackslash, Character.isStray_ofCode]
    rfl

/-! ## Whole strings -/

theorem isValid_flatMap_writtenCharacter (hcodes : ∀ code ∈ codes, Code.IsScalar code) :
    Text.IsValid ((codes.map Character.ofCode).flatMap writtenCharacter) := by
  induction codes with
  | nil => exact .nil
  | cons code codes ih =>
    obtain ⟨hcode, hcodes⟩ := List.forall_mem_cons.mp hcodes
    rw [List.map_cons, List.flatMap_cons]
    exact .append ((shown_writtenCharacter code).isValid hcode) (ih hcodes)

theorem readFrom_codes (hcodes : ∀ code ∈ codes, Code.IsScalar code) (pieces : List Text) (n : Nat)
    (cs : List Character) :
    readFrom pieces n
        (Text.characters ((codes.map Character.ofCode).flatMap writtenCharacter) ++
          quoteCharacter :: cs) =
      some (pieces.reverse.flatten ++ Text.ofCodes codes,
        n + (Text.characters ((codes.map Character.ofCode).flatMap writtenCharacter)).length +
          1) := by
  induction codes generalizing pieces n with
  | nil =>
    rw [List.map_nil, List.flatMap_nil, Text.characters_nil, List.nil_append, readFrom,
      if_pos (by rfl), Text.ofCodes, List.flatMap_nil, List.append_nil]
    rfl
  | cons code codes ih =>
    obtain ⟨hcode, hcodes⟩ := List.forall_mem_cons.mp hcodes
    have hshown := shown_writtenCharacter code
    rw [List.map_cons, List.flatMap_cons, (hshown.isValid hcode).characters_append,
      List.append_assoc, hshown.readFrom hcode, ih hcodes, List.length_append, Nat.add_assoc n]
    simp [Text.ofCodes]

/-- A valid text is read back from the string it is written as. -/
theorem readFrom_written {t : Text} (h : t.IsValid) :
    ∃ body, (written t).characters = quoteCharacter :: (body ++ [quoteCharacter]) ∧
      ∀ cs, readFrom [] 0 (body ++ quoteCharacter :: cs) = some (t, body.length + 1) := by
  obtain ⟨codes, hcodes, rfl⟩ := h
  refine ⟨Text.characters ((codes.map Character.ofCode).flatMap writtenCharacter), ?_, fun cs => ?_⟩
  · rw [written, Text.characters_ofCodes hcodes, List.append_assoc]
    show Text.characters (0x22 :: (_ ++ [0x22])) = _
    rw [Text.characters_ascii (by decide),
      (isValid_flatMap_writtenCharacter hcodes).characters_append,
      Text.characters_ascii (by decide), Text.characters_nil]
    rfl
  · rw [readFrom_codes hcodes, List.reverse_nil, List.flatten_nil, List.nil_append, Nat.zero_add]

theorem isValid_written {t : Text} (h : t.IsValid) : (written t).IsValid := by
  obtain ⟨codes, hcodes, rfl⟩ := h
  rw [written, Text.characters_ofCodes hcodes]
  exact .append (.append (.of_ascii (by decide +kernel)) (isValid_flatMap_writtenCharacter hcodes))
    (.of_ascii (by decide +kernel))

end XsPrep.Document
