import FetchOData.Proofs.LiteralText

namespace FetchOData.Text

/-- The bytes that a form-encoded text stands for. A percent sign that begins no escape is taken
for itself. -/
def formBytes : List Char → List UInt8
  | [] => []
  | '+' :: cs => 0x20 :: formBytes cs
  | '%' :: a :: b :: cs =>
    match Guid.nibble? a, Guid.nibble? b with
    | some high, some low => UInt8.ofNat (16 * high.val + low.val) :: formBytes cs
    | _, _ => 0x25 :: formBytes (a :: b :: cs)
  | c :: cs => String.utf8EncodeChar c ++ formBytes cs

def decode? (s : String) : Option String :=
  (formBytes s.toList).toByteArray.utf8Decode?.map fun cs => String.ofList cs.toList

def singleQuotes : List Char → List Char
  | [] => []
  | '\x27' :: '\x27' :: cs => '\x27' :: singleQuotes cs
  | c :: cs => c :: singleQuotes cs

/-- The text of a literal: what stands between the first and the last character, decoded and with
single quotes for doubled ones. -/
def unquoted? (s : String) : Option String :=
  (decode? (String.ofList s.toList.tail.dropLast)).map fun text =>
    String.ofList (singleQuotes text.toList)

/-- Letters, digits, eight signs, and escapes of two digits in lower case. -/
inductive IsFormText : List Char → Prop where
  | nil : IsFormText []
  | char (h : c.isAlphanum = true ∨ c ∈ ['*', '-', '.', '_', '+', '!', '(', ')'])
    (rest : IsFormText cs) : IsFormText (c :: cs)
  | escape (ha : a ∈ "0123456789abcdef".toList) (hb : b ∈ "0123456789abcdef".toList)
    (rest : IsFormText cs) : IsFormText ('%' :: a :: b :: cs)

theorem IsFormText.append {cs ds : List Char} (h : IsFormText cs) (h' : IsFormText ds) :
    IsFormText (cs ++ ds) := by
  induction h with
  | nil => exact h'
  | char hc _ ih => exact .char hc ih
  | escape ha hb _ ih => exact .escape ha hb ih

theorem isFormText_flatMap {f : α → List Char} {xs : List α} (h : ∀ x ∈ xs, IsFormText (f x)) :
    IsFormText (xs.flatMap f) := by
  induction xs with
  | nil => exact .nil
  | cons x xs ih =>
    rw [List.flatMap_cons]
    refine (h x List.mem_cons_self).append (ih ?_)
    intro y hy
    exact h y (List.mem_cons_of_mem _ hy)

theorem hexDigit_mem {n : Nat} (h : n < 16) : hexDigit n ∈ "0123456789abcdef".toList := by
  have : ∀ n : Fin 16, hexDigit n.val ∈ "0123456789abcdef".toList := by decide
  exact this ⟨n, h⟩

theorem nibble?_hexDigit {n : Nat} (h : n < 16) : Guid.nibble? (hexDigit n) = some ⟨n, h⟩ := by
  have : ∀ n : Fin 16, Guid.nibble? (hexDigit n.val) = some n := by decide
  exact this ⟨n, h⟩

theorem isFormText_encodeByte (b : UInt8) : IsFormText (encodeByte b) := by
  have hb := b.toNat_lt
  exact .escape (hexDigit_mem (by omega)) (hexDigit_mem (by omega)) .nil

theorem isFormText_encodeChar (c : Char) : IsFormText (encodeChar c) := by
  unfold encodeChar
  split
  · rename_i plain
    refine .char ?_ .nil
    simp only [isPlain, Bool.or_eq_true, beq_iff_eq] at plain
    rcases plain with ((((((letter | h) | h) | h) | h) | h) | h) | h
    · exact Or.inl letter
    all_goals simp [h]
  · split
    · exact .char (by decide) .nil
    · apply isFormText_flatMap
      intro b _
      exact isFormText_encodeByte b

theorem isFormText_encode (s : String) : IsFormText (encode s).toList := by
  rw [encode, String.toList_ofList]
  apply isFormText_flatMap
  intro c _
  exact isFormText_encodeChar c

theorem formBytes_encodeByte (b : UInt8) (cs : List Char) :
    formBytes (encodeByte b ++ cs) = b :: formBytes cs := by
  have hb := b.toNat_lt
  have high : b.toNat / 16 < 16 := by omega
  have low : b.toNat % 16 < 16 := by omega
  simp only [encodeByte, List.cons_append, List.nil_append, formBytes, nibble?_hexDigit high,
    nibble?_hexDigit low]
  rw [show 16 * (b.toNat / 16) + b.toNat % 16 = b.toNat by omega, UInt8.ofNat_toNat]

theorem formBytes_encodeBytes (bs : List UInt8) (cs : List Char) :
    formBytes (bs.flatMap encodeByte ++ cs) = bs ++ formBytes cs := by
  induction bs with
  | nil => rfl
  | cons b bs ih =>
    rw [List.flatMap_cons, List.append_assoc, formBytes_encodeByte, ih]
    rfl

/-- A character other than the two signs stands for itself. -/
theorem formBytes_cons {c : Char} (plus : c ≠ '+') (percent : c ≠ '%') (cs : List Char) :
    formBytes (c :: cs) = String.utf8EncodeChar c ++ formBytes cs := by
  rw [formBytes]
  · intro h
    exact plus h
  · intro _ _ _ h
    exact absurd h percent

theorem formBytes_of_plain {cs : List Char} (h : ∀ c ∈ cs, c ≠ '+' ∧ c ≠ '%') :
    formBytes cs = cs.flatMap String.utf8EncodeChar := by
  induction cs with
  | nil => rfl
  | cons c cs ih =>
    obtain ⟨plus, percent⟩ := h c List.mem_cons_self
    rw [formBytes_cons plus percent, ih fun d hd => h d (List.mem_cons_of_mem _ hd),
      List.flatMap_cons]

theorem formBytes_encodeChar (c : Char) (cs : List Char) :
    formBytes (encodeChar c ++ cs) = String.utf8EncodeChar c ++ formBytes cs := by
  unfold encodeChar
  split
  · rename_i plain
    apply formBytes_cons
    · intro same
      rw [same] at plain
      exact absurd plain (by decide)
    · intro same
      rw [same] at plain
      exact absurd plain (by decide)
  · split
    · rename_i space
      rw [space]
      rfl
    · exact formBytes_encodeBytes _ cs

theorem formBytes_encode (cs : List Char) :
    formBytes (cs.flatMap encodeChar) = cs.flatMap String.utf8EncodeChar := by
  induction cs with
  | nil => rfl
  | cons c cs ih => rw [List.flatMap_cons, formBytes_encodeChar, ih, List.flatMap_cons]

theorem decode?_of_formBytes {s t : String}
    (h : formBytes s.toList = t.toList.flatMap String.utf8EncodeChar) : decode? s = some t := by
  have bytes : (t.toList.flatMap String.utf8EncodeChar).toByteArray = t.toList.utf8Encode := rfl
  rw [decode?, h, bytes, List.utf8Decode?_utf8Encode]
  simp

theorem decode?_encode (s : String) : decode? (encode s) = some s := by
  apply decode?_of_formBytes
  rw [encode, String.toList_ofList, formBytes_encode]

theorem singleQuotes_doubled (cs : List Char) : singleQuotes (cs.flatMap doubleQuote) = cs := by
  induction cs with
  | nil => rfl
  | cons c cs ih =>
    rw [List.flatMap_cons]
    by_cases quote : c = '\x27'
    · simp [doubleQuote, quote, singleQuotes, ih]
    · simp [doubleQuote, quote, singleQuotes, ih]

/-- What stands between the quotes of a literal. -/
theorem toList_quoted (s : String) :
    (quoted s).toList =
      '\x27' :: ((encode (String.ofList (s.toList.flatMap doubleQuote))).toList ++ ['\x27']) := by
  simp [quoted]

theorem unquoted?_quoted (s : String) : unquoted? (quoted s) = some s := by
  rw [unquoted?, toList_quoted, List.tail_cons, List.dropLast_concat, String.ofList_toList,
    decode?_encode]
  simp [singleQuotes_doubled]

/-- Encoding goes along the text, loses nothing of it and uses a few characters only. A literal has
its quotes at both ends and nowhere else, and it too loses nothing, so that different texts have
different literals. -/
theorem encoding_lossless :
    (∀ s t, encode (s ++ t) = encode s ++ encode t) ∧
      (∀ s, decode? (encode s) = some s) ∧
      (∀ s, IsFormText (encode s).toList) ∧
      (∀ s, (∃ body, (quoted s).toList = '\x27' :: (body ++ ['\x27']) ∧ '\x27' ∉ body) ∧
        unquoted? (quoted s) = some s) ∧
      Function.Injective quoted := by
  refine ⟨encode_append, decode?_encode, isFormText_encode, ?_, ?_⟩
  · intro s
    refine ⟨⟨_, toList_quoted s, ?_⟩, unquoted?_quoted s⟩
    intro inside
    have char := mem_encode inside
    exact absurd char (by decide)
  · intro s t same
    have read := unquoted?_quoted s
    rw [same, unquoted?_quoted] at read
    exact (Option.some.inj read).symm

end FetchOData.Text
