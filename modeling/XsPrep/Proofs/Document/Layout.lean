import XsPrep.Proofs.Document.Strings
import XsPrep.Document.Value

/-!
# Tokens and values of a written document

A text spells tokens if it is read as these tokens wherever it stands.  Texts that spell
something can be put one behind the other (`Spells.append`), so what a document spells
follows from its parts, and white space between them spells nothing.  Tokens tell a value
if they bring about the value wherever one is expected (`Tells`), which likewise goes from
the items to the arrays and objects around them.
-/

namespace XsPrep.Document

/-! ## Tokens -/

/-- The text is read as these tokens, whatever was read before and whatever follows. -/
structure Spells (t : Text) (tokens : List Token) : Prop where
  /-- The text is decoded by itself. -/
  isValid : t.IsValid
  /-- Reading it leads to the tokens. -/
  reads : ∀ found cs,
    Token.readAllFrom found (t.characters ++ cs) = Token.readAllFrom (tokens.reverse ++ found) cs

theorem Spells.nil : Spells [] [] := by
  refine ⟨.nil, fun found cs => ?_⟩
  rw [Text.characters_nil, List.nil_append, List.reverse_nil, List.nil_append]

theorem Spells.append {s t : Text} {tokens tokens' : List Token} (hs : Spells s tokens)
    (ht : Spells t tokens') : Spells (s ++ t) (tokens ++ tokens') := by
  refine ⟨hs.isValid.append ht.isValid, fun found cs => ?_⟩
  rw [hs.isValid.characters_append, List.append_assoc, hs.reads, ht.reads, List.reverse_append,
    List.append_assoc]

theorem Spells.space {b : UInt8} (h : Token.isSpace b.toNat = true) (hb : b < 0x80) :
    Spells [b] [] := by
  refine ⟨.of_ascii (by simpa using hb), fun found cs => ?_⟩
  rw [Text.characters_ascii hb, Text.characters_nil, List.cons_append, List.nil_append,
    Token.readAllFrom, if_pos h]
  rfl

/-- White space spells nothing. -/
theorem Spells.spaces {t : Text} (h : ∀ b ∈ t, Token.isSpace b.toNat = true ∧ b < 0x80) :
    Spells t [] := by
  induction t with
  | nil => exact .nil
  | cons b t ih =>
    obtain ⟨hb, ht⟩ := List.forall_mem_cons.mp h
    exact (Spells.space hb.1 hb.2).append (ih ht)

theorem Spells.mark {b : UInt8} {token : Token} (h : Token.ofMark? b.toNat = some token)
    (hspace : Token.isSpace b.toNat = false) (hb : b < 0x80) : Spells [b] [token] := by
  refine ⟨.of_ascii (by simpa using hb), fun found cs => ?_⟩
  rw [Text.characters_ascii hb, Text.characters_nil, List.cons_append, List.nil_append,
    Token.readAllFrom, hspace, if_neg Bool.false_ne_true, Token.read?, h]
  rfl

/-- A string spells the text that was written. -/
theorem Spells.written {t : Text} (h : t.IsValid) : Spells (written t) [.string t] := by
  refine ⟨isValid_written h, fun found cs => ?_⟩
  obtain ⟨body, hcharacters, hread⟩ := readFrom_written h
  have htoken : Token.read? quoteCharacter (body ++ quoteCharacter :: cs) =
      some (.string t, body.length + 1) := by
    rw [Token.read?, show Token.ofMark? quoteCharacter.code = none from rfl]
    dsimp only
    rw [if_pos (by rfl), hread]
    rfl
  have hrest : (body ++ quoteCharacter :: cs).drop (body.length + 1) = cs := by simp
  rw [hcharacters, List.cons_append, List.append_assoc, List.singleton_append, Token.readAllFrom,
    if_neg (by decide), htoken]
  dsimp only
  rw [hrest]
  rfl

/-- Parts with a separator between them spell what the parts and the separators spell. -/
theorem Spells.joined {α : Type} {separator : Text} {between : List Token} {part : α → Text}
    {tokens : α → List Token} {xs : List α} (hseparator : Spells separator between)
    (hparts : ∀ x ∈ xs, Spells (part x) (tokens x)) :
    Spells (Text.joined separator (xs.map part)) (between.intercalate (xs.map tokens)) := by
  induction xs with
  | nil => exact .nil
  | cons x xs ih =>
    obtain ⟨hx, hxs⟩ := List.forall_mem_cons.mp hparts
    cases xs with
    | nil => simpa [Text.joined, List.intercalate] using hx
    | cons y ys =>
      have hrest := (hx.append hseparator).append (ih hxs)
      simpa [Text.joined, List.intercalate] using hrest

/-- A document that spells tokens is read as these tokens. -/
theorem Spells.readAll {t : Text} {tokens : List Token} (h : Spells t tokens) :
    Token.readAll t = some tokens := by
  have hreads := h.reads [] []
  rwa [List.append_nil, List.append_nil, Token.readAllFrom, List.reverse_reverse] at hreads

/-! ## Values -/

/-- The tokens bring about the value wherever one is expected, unless what is open there
nests too deep for `depth` more. -/
def Tells (depth : Nat) (tokens : List Token) (value : Value) : Prop :=
  ∀ expected opened, (expected = .value ∨ expected = .itemOrEnd) →
    opened.length + depth ≤ Partial.depthLimit →
    tokens.foldlM Partial.step ⟨expected, opened⟩ = some (Partial.complete value opened)

theorem Tells.string (t : Text) : Tells 0 [.string t] (.string t) := by
  intro expected opened hexpected _
  rcases hexpected with rfl | rfl
  · rfl
  · rfl

theorem nest_of_le {depth : Nat} {inner : Opened} {outer : List Opened}
    (h : outer.length + (depth + 1) ≤ Partial.depthLimit) (expected : Expected) :
    Partial.nest expected inner outer = some ⟨expected, inner :: outer⟩ :=
  if_pos (by omega)

/-- The tokens of neighbours with commas between them. -/
def separated (parts : List (List Token)) : List Token := [Token.comma].intercalate parts

theorem separated_cons (part : List Token) (parts : List (List Token)) :
    separated (part :: parts) = part ++ parts.flatMap (.comma :: ·) := by
  induction parts generalizing part with
  | nil => simp [separated, List.intercalate]
  | cons next parts ih =>
    have hrest := ih next
    simp only [separated, List.intercalate, List.intersperse_cons_cons, List.flatten_cons]
      at hrest ⊢
    rw [hrest, List.flatMap_cons]
    simp

section Nested

variable {α : Type} {depth : Nat} {tokens : α → List Token} {value : α → Value} {xs : List α}
  {outer : List Opened}

theorem Tells.next_items (h : ∀ x ∈ xs, Tells depth (tokens x) (value x))
    (hdepth : outer.length + (depth + 1) ≤ Partial.depthLimit) (items : List Value) :
    ((xs.map tokens).flatMap (.comma :: ·)).foldlM Partial.step
        ⟨.commaOrEnd, .array items :: outer⟩ =
      some ⟨.commaOrEnd, .array ((xs.map value).reverse ++ items) :: outer⟩ := by
  induction xs generalizing items with
  | nil => rfl
  | cons x xs ih =>
    obtain ⟨hx, hxs⟩ := List.forall_mem_cons.mp h
    have hitem := hx .value (.array items :: outer) (.inl rfl)
      (by simp only [List.length_cons]; omega)
    rw [List.map_cons, List.flatMap_cons, List.foldlM_append, List.foldlM_cons]
    show ((tokens x).foldlM Partial.step ⟨.value, .array items :: outer⟩ >>= _) = _
    rw [hitem]
    show List.foldlM Partial.step ⟨.commaOrEnd, .array (value x :: items) :: outer⟩ _ = _
    rw [ih hxs, List.map_cons, List.reverse_cons, List.append_assoc, List.singleton_append]

/-- An array is told by its items between brackets. -/
theorem Tells.array (h : ∀ x ∈ xs, Tells depth (tokens x) (value x)) :
    Tells (depth + 1) (.openArray :: separated (xs.map tokens) ++ [.closeArray])
      (.array (xs.map value)) := by
  intro expected opened hexpected hdepth
  have hopen : Partial.step ⟨expected, opened⟩ .openArray =
      some ⟨.itemOrEnd, .array [] :: opened⟩ := by
    rcases hexpected with rfl | rfl
    · exact nest_of_le hdepth _
    · exact nest_of_le hdepth _
  rw [List.cons_append, List.foldlM_cons, hopen]
  show (separated (xs.map tokens) ++ [Token.closeArray]).foldlM Partial.step
    ⟨.itemOrEnd, .array [] :: opened⟩ = _
  cases xs with
  | nil => rfl
  | cons x xs =>
    obtain ⟨hx, hxs⟩ := List.forall_mem_cons.mp h
    have hfirst := hx .itemOrEnd (.array [] :: opened) (.inr rfl)
      (by simp only [List.length_cons]; omega)
    have hnext := Tells.next_items hxs hdepth [value x]
    rw [List.map_cons, separated_cons, List.append_assoc, List.foldlM_append, hfirst]
    show (List.foldlM Partial.step ⟨.commaOrEnd, .array [value x] :: opened⟩ _) = _
    rw [List.foldlM_append, hnext]
    show some (Partial.complete (.array ((xs.map value).reverse ++ [value x]).reverse) opened) = _
    rw [List.reverse_append, List.reverse_reverse, List.reverse_singleton, List.singleton_append,
      List.map_cons]

variable (key : α → Text)

/-- The tokens of a member of an object. -/
def memberTokens (key : Text) (tokens : List Token) : List Token := .string key :: .colon :: tokens

theorem Tells.member {tokens : List Token} {value : Value} (h : Tells depth tokens value)
    (hdepth : outer.length + (depth + 1) ≤ Partial.depthLimit) {expected : Expected}
    (hexpected : expected = .key ∨ expected = .keyOrEnd) (members : List (Text × Value))
    (before key : Text) :
    (memberTokens key tokens).foldlM Partial.step ⟨expected, .object members before :: outer⟩ =
      some ⟨.commaOrEnd, .object ((key, value) :: members) key :: outer⟩ := by
  have hkey : Partial.step ⟨expected, .object members before :: outer⟩ (.string key) =
      some ⟨.colon, .object members key :: outer⟩ := by
    rcases hexpected with rfl | rfl
    · rfl
    · rfl
  have hvalue := h .value (.object members key :: outer) (.inl rfl)
    (by simp only [List.length_cons]; omega)
  rw [memberTokens, List.foldlM_cons, hkey]
  show tokens.foldlM Partial.step ⟨.value, .object members key :: outer⟩ = _
  rw [hvalue]
  rfl

theorem Tells.next_members (h : ∀ x ∈ xs, Tells depth (tokens x) (value x))
    (hdepth : outer.length + (depth + 1) ≤ Partial.depthLimit) (members : List (Text × Value))
    (before : Text) :
    ∃ last, ((xs.map fun x => memberTokens (key x) (tokens x)).flatMap (.comma :: ·)).foldlM
        Partial.step ⟨.commaOrEnd, .object members before :: outer⟩ =
      some ⟨.commaOrEnd,
        .object ((xs.map fun x => (key x, value x)).reverse ++ members) last :: outer⟩ := by
  induction xs generalizing members before with
  | nil => exact ⟨before, rfl⟩
  | cons x xs ih =>
    obtain ⟨hx, hxs⟩ := List.forall_mem_cons.mp h
    have hmember := hx.member hdepth (.inl rfl) members before (key x)
    obtain ⟨last, hrest⟩ := ih hxs ((key x, value x) :: members) (key x)
    refine ⟨last, ?_⟩
    rw [List.map_cons, List.flatMap_cons, List.foldlM_append, List.foldlM_cons]
    show ((memberTokens (key x) (tokens x)).foldlM Partial.step
      ⟨.key, .object members before :: outer⟩ >>= _) = _
    rw [hmember]
    show List.foldlM Partial.step ⟨.commaOrEnd, .object _ _ :: outer⟩ _ = _
    rw [hrest, List.map_cons, List.reverse_cons, List.append_assoc, List.singleton_append]

/-- An object is told by its members between braces. -/
theorem Tells.object (h : ∀ x ∈ xs, Tells depth (tokens x) (value x)) :
    Tells (depth + 1)
      (.openObject :: separated (xs.map fun x => memberTokens (key x) (tokens x)) ++ [.closeObject])
      (.object (xs.map fun x => (key x, value x))) := by
  intro expected opened hexpected hdepth
  have hopen : Partial.step ⟨expected, opened⟩ .openObject =
      some ⟨.keyOrEnd, .object [] [] :: opened⟩ := by
    rcases hexpected with rfl | rfl
    · exact nest_of_le hdepth _
    · exact nest_of_le hdepth _
  rw [List.cons_append, List.foldlM_cons, hopen]
  show (separated _ ++ [Token.closeObject]).foldlM Partial.step
    ⟨.keyOrEnd, .object [] [] :: opened⟩ = _
  cases xs with
  | nil => rfl
  | cons x xs =>
    obtain ⟨hx, hxs⟩ := List.forall_mem_cons.mp h
    have hfirst := hx.member hdepth (.inr rfl) [] [] (key x)
    obtain ⟨last, hnext⟩ := Tells.next_members key hxs hdepth [(key x, value x)] (key x)
    rw [List.map_cons, separated_cons, List.append_assoc, List.foldlM_append, hfirst]
    show (List.foldlM Partial.step
      ⟨.commaOrEnd, .object [(key x, value x)] (key x) :: opened⟩ _) = _
    rw [List.foldlM_append, hnext]
    show some (Partial.complete (.object (_ ++ [(key x, value x)]).reverse) opened) = _
    rw [List.reverse_append, List.reverse_reverse, List.reverse_singleton, List.singleton_append,
      List.map_cons]

end Nested

/-- A document that spells the tokens of a value is read as this value. -/
theorem Value.parse?_of_spells {t : Text} {tokens : List Token} {value : Value} {depth : Nat}
    (hspells : Spells t tokens) (htells : Tells depth tokens value)
    (hdepth : depth ≤ Partial.depthLimit) : Value.parse? t = some value := by
  have hfold := htells .value [] (.inl rfl) (by simpa using hdepth)
  rw [Value.parse?, hspells.readAll, Option.bind_some, Value.ofTokens?, Partial.start, hfold]
  rfl

end XsPrep.Document
