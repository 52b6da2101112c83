import XsPrep.Proofs.Text.Decoding

/-!
# Encoding a text

A text is valid if it is the encoding of code points, none of them a surrogate.  The
encoding of a code point is read as that code point wherever it stands (`first_encode`),
so valid texts decode to the code points they encode, and what follows them is decoded
by itself (`characters_ofCodes_append`).
-/

namespace XsPrep

/-- A code point that is no surrogate. -/
def Code.IsScalar (code : Nat) : Prop := code < 0xD800 ∨ 0xE000 ≤ code ∧ code ≤ 0x10FFFF

instance (code : Nat) : Decidable (Code.IsScalar code) := inferInstanceAs (Decidable (_ ∨ _))

/-- The character of a code point. -/
def Character.ofCode (code : Nat) : Character := ⟨code, Text.encode code⟩

@[simp] theorem Character.code_ofCode (code : Nat) : (ofCode code).code = code := rfl

/-- The encoding of code points. -/
def Text.ofCodes (codes : List Nat) : Text := codes.flatMap Text.encode

/-- A text is valid UTF-8. -/
def Text.IsValid (t : Text) : Prop :=
  ∃ codes, (∀ code ∈ codes, Code.IsScalar code) ∧ t = ofCodes codes

/-! ## Bytes -/

theorem toNat_toUInt8 {n : Nat} (h : n < 256) : n.toUInt8.toNat = n :=
  UInt8.toNat_ofNat_of_lt' h

theorem Text.toNat_tailByte (n : Nat) : (tailByte n).toNat = 0x80 + n % 64 := by
  have hlt : 0x80 + n % 64 < 256 := by omega
  exact toNat_toUInt8 hlt

namespace Character

theorem tailBits_tailByte (n : Nat) : tailBits (Text.tailByte n) = n % 64 := by
  have hvalue := Text.toNat_tailByte n
  unfold tailBits
  omega

theorem isTail_tailByte (n : Nat) : isTail (Text.tailByte n) = true := by
  rw [isTail_iff, Text.toNat_tailByte]
  omega

theorem isSecond_iff {a b : UInt8} :
    isSecond a b = true ↔
      (0x80 ≤ b.toNat ∧ b.toNat ≤ 0xBF) ∧ (a.toNat = 0xE0 → 0xA0 ≤ b.toNat) ∧
        (a.toNat = 0xED → b.toNat ≤ 0x9F) ∧ (a.toNat = 0xF0 → 0x90 ≤ b.toNat) ∧
        (a.toNat = 0xF4 → b.toNat ≤ 0x8F) := by
  unfold isSecond
  simp only [← UInt8.toNat_inj]
  repeat' split
  all_goals
    simp only [isTail, Bool.and_eq_true, decide_eq_true_eq, UInt8.le_iff_toNat_le,
      UInt8.reduceToNat] at *
    omega

/-! ## One code point -/

theorem sequence?_pair {code : Nat} (hlow : 0x80 ≤ code) (hhigh : code < 0x800) (rest : Text) :
    sequence? (0xC0 + code / 64).toUInt8 (Text.tailByte code :: rest) =
      some (⟨code, [(0xC0 + code / 64).toUInt8, Text.tailByte code]⟩, rest) := by
  have ha : (0xC0 + code / 64).toUInt8.toNat = 0xC0 + code / 64 := toNat_toUInt8 (by omega)
  have hsecond : isSecond (0xC0 + code / 64).toUInt8 (Text.tailByte code) = true := by
    rw [isSecond_iff, ha, Text.toNat_tailByte]
    omega
  have hcode : (0xC0 + code / 64 - 0xC0) * 64 + code % 64 = code := by omega
  rw [sequence?, if_neg, if_pos, pair?, if_pos hsecond, ha, tailBits_tailByte, hcode]
  all_goals
    simp only [UInt8.lt_iff_toNat_lt, ha, UInt8.reduceToNat]
    omega

theorem sequence?_triple {code : Nat} (hlow : 0x800 ≤ code) (hhigh : code < 0x10000)
    (hscalar : Code.IsScalar code) (rest : Text) :
    sequence? (0xE0 + code / 4096).toUInt8
        (Text.tailByte (code / 64) :: Text.tailByte code :: rest) =
      some (⟨code, [(0xE0 + code / 4096).toUInt8, Text.tailByte (code / 64),
        Text.tailByte code]⟩, rest) := by
  have ha : (0xE0 + code / 4096).toUInt8.toNat = 0xE0 + code / 4096 := toNat_toUInt8 (by omega)
  have hsecond : isSecond (0xE0 + code / 4096).toUInt8 (Text.tailByte (code / 64)) = true := by
    rw [isSecond_iff, ha, Text.toNat_tailByte]
    unfold Code.IsScalar at hscalar
    omega
  have hcode : ((0xE0 + code / 4096 - 0xE0) * 64 + code / 64 % 64) * 64 + code % 64 = code := by
    omega
  rw [sequence?, if_neg, if_neg, if_pos, triple?, hsecond, isTail_tailByte, Bool.and_self,
    if_pos rfl, ha, tailBits_tailByte, tailBits_tailByte, hcode]
  all_goals
    simp only [UInt8.lt_iff_toNat_lt, ha, UInt8.reduceToNat]
    omega

theorem sequence?_quadruple {code : Nat} (hlow : 0x10000 ≤ code) (hhigh : code ≤ 0x10FFFF)
    (rest : Text) :
    sequence? (0xF0 + code / 262144).toUInt8
        (Text.tailByte (code / 4096) :: Text.tailByte (code / 64) :: Text.tailByte code :: rest) =
      some (⟨code, [(0xF0 + code / 262144).toUInt8, Text.tailByte (code / 4096),
        Text.tailByte (code / 64), Text.tailByte code]⟩, rest) := by
  have ha : (0xF0 + code / 262144).toUInt8.toNat = 0xF0 + code / 262144 :=
    toNat_toUInt8 (by omega)
  have hsecond :
      isSecond (0xF0 + code / 262144).toUInt8 (Text.tailByte (code / 4096)) = true := by
    rw [isSecond_iff, ha, Text.toNat_tailByte]
    omega
  have hcode : (((0xF0 + code / 262144 - 0xF0) * 64 + code / 4096 % 64) * 64 +
      code / 64 % 64) * 64 + code % 64 = code := by
    omega
  rw [sequence?, if_neg, if_neg, if_neg, if_pos, quadruple?, hsecond, isTail_tailByte,
    isTail_tailByte, Bool.and_self, Bool.and_self, if_pos rfl, ha, tailBits_tailByte,
    tailBits_tailByte, tailBits_tailByte, hcode]
  all_goals
    simp only [UInt8.lt_iff_toNat_lt, ha, UInt8.reduceToNat]
    omega

/-- A code point beyond the single bytes is encoded as a sequence. -/
theorem sequence?_encode {code : Nat} (hhigh : 0x80 ≤ code) (hscalar : Code.IsScalar code) :
    ∃ a tails, Text.encode code = a :: tails ∧ ¬a < 0x80 ∧
      ∀ rest, sequence? a (tails ++ rest) = some (ofCode code, rest) := by
  have hlead : ∀ n < 0x40, ¬(0xC0 + n).toUInt8 < 0x80 := by
    intro n hn
    have hvalue : (0xC0 + n).toUInt8.toNat = 0xC0 + n := toNat_toUInt8 (by omega)
    simp only [UInt8.lt_iff_toNat_lt, hvalue, UInt8.reduceToNat]
    omega
  rcases Nat.lt_or_ge code 0x800 with hpair | hpair
  · have hencode : Text.encode code = [(0xC0 + code / 64).toUInt8, Text.tailByte code] := by
      rw [Text.encode, if_neg (by omega), if_pos hpair]
    refine ⟨_, _, hencode, hlead _ (by omega), fun rest => ?_⟩
    rw [ofCode, hencode]
    exact sequence?_pair hhigh hpair rest
  have hkept : ((0xD800 ≤ code && code < 0xE000) || 0x10FFFF < code) = false := by
    unfold Code.IsScalar at hscalar
    simp only [Bool.or_eq_false_iff, Bool.and_eq_false_imp, decide_eq_true_eq,
      decide_eq_false_iff_not]
    omega
  rcases Nat.lt_or_ge code 0x10000 with htriple | htriple
  · have hencode : Text.encode code =
        [(0xE0 + code / 4096).toUInt8, Text.tailByte (code / 64), Text.tailByte code] := by
      rw [Text.encode, if_neg (by omega), if_neg (by omega), hkept, if_neg Bool.false_ne_true,
        if_pos htriple]
    refine ⟨_, _, hencode, ?_, fun rest => ?_⟩
    · have h := hlead (0x20 + code / 4096) (by omega)
      rwa [← Nat.add_assoc] at h
    · rw [ofCode, hencode]
      exact sequence?_triple hpair htriple hscalar rest
  · have hencode : Text.encode code =
        [(0xF0 + code / 262144).toUInt8, Text.tailByte (code / 4096), Text.tailByte (code / 64),
          Text.tailByte code] := by
      rw [Text.encode, if_neg (by omega), if_neg (by omega), hkept, if_neg Bool.false_ne_true,
        if_neg (by omega)]
    have hbound : code ≤ 0x10FFFF := by
      unfold Code.IsScalar at hscalar
      omega
    refine ⟨_, _, hencode, ?_, fun rest => ?_⟩
    · have h := hlead (0x30 + code / 262144) (by omega)
      rwa [← Nat.add_assoc] at h
    · rw [ofCode, hencode]
      exact sequence?_quadruple htriple hbound rest

/-- The encoding of a code point is read as this code point, whatever follows. -/
theorem first_encode {code : Nat} (hscalar : Code.IsScalar code) :
    ∃ a tails, Text.encode code = a :: tails ∧
      ∀ rest, first a (tails ++ rest) = (ofCode code, rest) := by
  rcases Nat.lt_or_ge code 0x80 with hascii | hhigh
  · have hencode : Text.encode code = [code.toUInt8] := if_pos hascii
    have hvalue : code.toUInt8.toNat = code := toNat_toUInt8 (by omega)
    refine ⟨_, _, hencode, fun rest => ?_⟩
    have hbyte : code.toUInt8 < 0x80 := by
      simpa only [UInt8.lt_iff_toNat_lt, hvalue, UInt8.reduceToNat] using hascii
    rw [ofCode, hencode, first, if_pos hbyte, hvalue]
    rfl
  · obtain ⟨a, tails, hencode, ha, hread⟩ := sequence?_encode hhigh hscalar
    refine ⟨a, tails, hencode, fun rest => ?_⟩
    rw [first, if_neg ha, hread]
    rfl

/-- U+FFFD takes three bytes if it is encoded. -/
theorem isStray_ofCode (code : Nat) : (ofCode code).isStray = false := by
  rw [isStray, Bool.and_eq_false_imp]
  intro hcode
  obtain rfl : code = Code.replacement := eq_of_beq hcode
  rfl

end Character

/-! ## Whole texts -/

namespace Text

theorem characters_encode_append {code : Nat} (h : Code.IsScalar code) (t : Text) :
    characters (encode code ++ t) = .ofCode code :: characters t := by
  obtain ⟨a, tails, hencode, hread⟩ := Character.first_encode h
  rw [hencode, List.cons_append, characters_cons, hread]

/-- Code points are read back from their encoding, and what follows is decoded by itself. -/
theorem characters_ofCodes_append {codes : List Nat} (h : ∀ code ∈ codes, Code.IsScalar code)
    (t : Text) : characters (ofCodes codes ++ t) = codes.map .ofCode ++ characters t := by
  induction codes with
  | nil => rfl
  | cons code codes ih =>
    obtain ⟨hcode, hcodes⟩ := List.forall_mem_cons.mp h
    rw [ofCodes, List.flatMap_cons, List.append_assoc, characters_encode_append hcode, ← ofCodes,
      ih hcodes, List.map_cons, List.cons_append]

theorem characters_ofCodes {codes : List Nat} (h : ∀ code ∈ codes, Code.IsScalar code) :
    characters (ofCodes codes) = codes.map .ofCode := by
  have hend := characters_ofCodes_append h []
  rwa [List.append_nil, characters_nil, List.append_nil] at hend

theorem IsValid.characters_append {s : Text} (h : s.IsValid) (t : Text) :
    characters (s ++ t) = characters s ++ characters t := by
  obtain ⟨codes, hcodes, rfl⟩ := h
  rw [characters_ofCodes_append hcodes, characters_ofCodes hcodes]

theorem IsValid.nil : IsValid [] := ⟨[], by simp, rfl⟩

theorem IsValid.append {s t : Text} (hs : s.IsValid) (ht : t.IsValid) : (s ++ t).IsValid := by
  obtain ⟨codes, hcodes, rfl⟩ := hs
  obtain ⟨codes', hcodes', rfl⟩ := ht
  refine ⟨codes ++ codes', ?_, by rw [ofCodes, ofCodes, ofCodes, List.flatMap_append]⟩
  intro code hcode
  rcases List.mem_append.mp hcode with hcode | hcode
  · exact hcodes code hcode
  · exact hcodes' code hcode

theorem IsValid.encode {code : Nat} (h : Code.IsScalar code) : (encode code).IsValid :=
  ⟨[code], by simpa using h, by simp [ofCodes]⟩

theorem encode_ascii {b : UInt8} (hb : b < 0x80) : encode b.toNat = [b] := by
  have hlow : b.toNat < 0x80 := UInt8.lt_iff_toNat_lt.mp hb
  rw [encode, if_pos hlow]
  exact congrArg ([·]) UInt8.ofNat_toNat

theorem IsValid.of_ascii {t : Text} (h : ∀ b ∈ t, b < 0x80) : t.IsValid := by
  refine ⟨t.map UInt8.toNat, ?_, ?_⟩
  · intro code hcode
    obtain ⟨b, hb, rfl⟩ := List.mem_map.mp hcode
    have hlow : b.toNat < 0x80 := UInt8.lt_iff_toNat_lt.mp (h b hb)
    exact .inl (by omega)
  · induction t with
    | nil => rfl
    | cons b t ih =>
      obtain ⟨hb, ht⟩ := List.forall_mem_cons.mp h
      rw [List.map_cons, ofCodes, List.flatMap_cons, encode_ascii hb, ← ofCodes, ← ih ht]
      rfl

end Text

end XsPrep
