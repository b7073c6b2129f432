namespace FetchOData.Json.Quoted

def hex? (c : Char) : Option Nat :=
  if '0' ≤ c ∧ c ≤ '9' then some (c.toNat - 0x30)
  else if 'a' ≤ c ∧ c ≤ 'f' then some (c.toNat - 0x61 + 10)
  else if 'A' ≤ c ∧ c ≤ 'F' then some (c.toNat - 0x41 + 10)
  else none

/-- A UTF-16 code unit from its four hexadecimal digits. -/
def unit? (a b c d : Char) : Option Nat := do
  return ((← hex? a) * 16 + (← hex? b)) * 256 + (← hex? c) * 16 + (← hex? d)

def simpleEscape? : Char → Option Char
  | '"' => some '"'
  | '\\' => some '\\'
  | '/' => some '/'
  | 'b' => some '\x08'
  | 'f' => some '\x0c'
  | 'n' => some '\n'
  | 'r' => some '\r'
  | 't' => some '\t'
  | _ => none

/-- The characters that the inside of a string denotes. `high` is the first half of a surrogate
pair that waits for its second half. -/
def unescape : Option Nat → List Char → Option (List Char)
  | none, [] => some []
  | some _, [] => none
  | high, '\\' :: 'u' :: a :: b :: c :: d :: rest => do
    let unit ← unit? a b c d
    match high with
    | some h =>
      if 0xDC00 ≤ unit ∧ unit ≤ 0xDFFF then
        return Char.ofNat (0x10000 + (h - 0xD800) * 0x400 + (unit - 0xDC00)) ::
          (← unescape none rest)
      else none
    | none =>
      if 0xD800 ≤ unit ∧ unit ≤ 0xDBFF then unescape (some unit) rest
      else if 0xDC00 ≤ unit ∧ unit ≤ 0xDFFF then none
      else return Char.ofNat unit :: (← unescape none rest)
  | some _, _ => none
  | none, '\\' :: e :: rest => do return (← simpleEscape? e) :: (← unescape none rest)
  | none, c :: rest => if c < ' ' || c == '\\' then none else (c :: ·) <$> unescape none rest

/-- Splits at the quote that ends a string, with the escapes before it left as they are. -/
def untilQuote : List Char → Option (List Char × List Char)
  | [] => none
  | '"' :: rest => some ([], rest)
  | '\\' :: c :: rest => (untilQuote rest).map fun (inner, rest) => ('\\' :: c :: inner, rest)
  | c :: rest => (untilQuote rest).map fun (inner, rest) => (c :: inner, rest)

theorem untilQuote_length {cs inner rest : List Char} (h : untilQuote cs = some (inner, rest)) :
    rest.length < cs.length := by
  fun_induction untilQuote cs generalizing inner rest with
  | case1 => simp at h
  | case2 => simp_all
  | case3 c r ih =>
    obtain ⟨⟨i, r'⟩, h', he⟩ := Option.map_eq_some_iff.mp h
    have := ih h'
    simp_all
    omega
  | case4 c r _ _ ih =>
    obtain ⟨⟨i, r'⟩, h', he⟩ := Option.map_eq_some_iff.mp h
    have := ih h'
    simp_all
    omega

/-- The string behind its opening quote, and what follows it. -/
def read? (cs : List Char) : Option (String × List Char) :=
  match untilQuote cs with
  | none => none
  | some (inner, rest) => (unescape none inner).map fun s => (String.ofList s, rest)

theorem read?_length {cs rest : List Char} {s : String} (h : read? cs = some (s, rest)) :
    rest.length < cs.length := by
  unfold read? at h
  split at h
  · simp at h
  · next hq =>
    obtain ⟨_, _, he⟩ := Option.map_eq_some_iff.mp h
    simp only [Prod.mk.injEq] at he
    exact he.2 ▸ untilQuote_length hq

end FetchOData.Json.Quoted
