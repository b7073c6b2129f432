import FetchOData.Json.Numeral
import FetchOData.Json.Quoted

namespace FetchOData.Json

/-- The lexemes of JSON text. -/
inductive Token where
  | openArray
  | closeArray
  | openObject
  | closeObject
  | comma
  | colon
  | scalar (value : Json)

namespace Token

def isSpace (c : Char) : Bool :=
  c == ' ' || c == '\t' || c == '\n' || c == '\r'

/-- The scalar in front. It may be followed by anything. -/
def scalar? (cs : List Char) : Option (Json × List Char) :=
  match cs with
  | 'n' :: 'u' :: 'l' :: 'l' :: rest => some (.null, rest)
  | 't' :: 'r' :: 'u' :: 'e' :: rest => some (.bool true, rest)
  | 'f' :: 'a' :: 'l' :: 's' :: 'e' :: rest => some (.bool false, rest)
  | '"' :: rest => (Quoted.read? rest).map fun (s, rest) => (.str s, rest)
  | _ => Numeral.read? cs

theorem scalar?_length {cs rest : List Char} {value : Json}
    (h : scalar? cs = some (value, rest)) : rest.length < cs.length := by
  unfold scalar? at h
  split at h
  · simp_all
    omega
  · simp_all
    omega
  · simp_all
    omega
  · obtain ⟨⟨s, r⟩, hq, he⟩ := Option.map_eq_some_iff.mp h
    simp only [Prod.mk.injEq] at he
    have := Quoted.read?_length hq
    simp only [List.length_cons, ← he.2]
    omega
  · exact Numeral.read?_length h

def lexeme? (cs : List Char) : Option (Token × List Char) :=
  match cs with
  | '[' :: rest => some (openArray, rest)
  | ']' :: rest => some (closeArray, rest)
  | '\x7b' :: rest => some (openObject, rest)
  | '\x7d' :: rest => some (closeObject, rest)
  | ',' :: rest => some (comma, rest)
  | ':' :: rest => some (colon, rest)
  | _ => (scalar? cs).map fun (value, rest) => (scalar value, rest)

theorem lexeme?_length {cs rest : List Char} {token : Token}
    (h : lexeme? cs = some (token, rest)) : rest.length < cs.length := by
  unfold lexeme? at h
  split at h
  case h_7 =>
    obtain ⟨⟨value, r⟩, hs, he⟩ := Option.map_eq_some_iff.mp h
    simp only [Prod.mk.injEq] at he
    exact he.2 ▸ scalar?_length hs
  all_goals simp_all

def dropSpace (cs : List Char) : List Char :=
  cs.dropWhile isSpace

/-- The first lexeme of a text, and what follows it. -/
def next? (cs : List Char) : Option (Token × List Char) :=
  lexeme? (dropSpace cs)

theorem next?_length {cs rest : List Char} {token : Token} (h : next? cs = some (token, rest)) :
    rest.length < cs.length :=
  Nat.lt_of_lt_of_le (lexeme?_length h) (List.dropWhile_sublist isSpace).length_le

end Token

end FetchOData.Json
