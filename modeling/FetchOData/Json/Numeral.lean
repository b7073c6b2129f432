import FetchOData.Json.Basic
import FetchOData.Number.Double

namespace FetchOData.Json.Numeral

/-- The digits in front, at least one of them. -/
def digits? (cs : List Char) : Option (List Char × List Char) :=
  match cs with
  | [] => none
  | c :: rest =>
    if c.isDigit then some (c :: rest.takeWhile Char.isDigit, rest.dropWhile Char.isDigit) else none

theorem digits?_length {cs ds rest : List Char} (h : digits? cs = some (ds, rest)) :
    rest.length < cs.length := by
  unfold digits? at h
  split at h
  · simp at h
  · next c r =>
    split at h
    · simp only [Option.some.injEq, Prod.mk.injEq] at h
      have := (List.dropWhile_sublist Char.isDigit (l := r)).length_le
      simp only [← h.2, List.length_cons]
      omega
    · simp at h

/-- A whole part has no leading zero. -/
def whole? (cs : List Char) : Option (List Char × List Char) :=
  match digits? cs with
  | some ('0' :: _ :: _, _) => none
  | found => found

theorem whole?_length {cs ds rest : List Char} (h : whole? cs = some (ds, rest)) :
    rest.length < cs.length := by
  unfold whole? at h
  split at h
  · simp at h
  · exact digits?_length h

/-- The digits after a point, none when there is no point. -/
def fraction? (cs : List Char) : Option (List Char × List Char) :=
  match cs with
  | '.' :: rest => digits? rest
  | _ => some ([], cs)

theorem fraction?_length {cs ds rest : List Char} (h : fraction? cs = some (ds, rest)) :
    rest.length ≤ cs.length := by
  unfold fraction? at h
  split at h
  · have := digits?_length h
    simp only [List.length_cons]
    omega
  · simp_all

def isExponentMark (c : Char) : Bool :=
  c == 'e' || c == 'E'

/-- The exponent behind its mark. -/
def power? (cs : List Char) : Option (Int × List Char) :=
  match cs with
  | '-' :: rest => (digits? rest).map fun (ds, rest) => (-(Number.ofDigits ds : Int), rest)
  | '+' :: rest => (digits? rest).map fun (ds, rest) => ((Number.ofDigits ds : Int), rest)
  | _ => (digits? cs).map fun (ds, rest) => ((Number.ofDigits ds : Int), rest)

theorem power?_length {cs rest : List Char} {n : Int} (h : power? cs = some (n, rest)) :
    rest.length < cs.length := by
  unfold power? at h
  split at h
  all_goals
    obtain ⟨⟨ds, r⟩, hd, he⟩ := Option.map_eq_some_iff.mp h
    simp only [Prod.mk.injEq] at he
    have := digits?_length hd
    simp only [List.length_cons, ← he.2]
    omega

/-- The exponent, if there is one. -/
def exponent? (cs : List Char) : Option (Option Int × List Char) :=
  match cs with
  | [] => some (none, [])
  | c :: rest =>
    if isExponentMark c then (power? rest).map fun (n, rest) => (some n, rest)
    else some (none, c :: rest)

theorem exponent?_length {cs rest : List Char} {n : Option Int}
    (h : exponent? cs = some (n, rest)) : rest.length ≤ cs.length := by
  unfold exponent? at h
  split at h
  · simp_all
  · split at h
    · obtain ⟨⟨m, r⟩, hp, he⟩ := Option.map_eq_some_iff.mp h
      simp only [Prod.mk.injEq] at he
      have := power?_length hp
      simp only [List.length_cons, ← he.2]
      omega
    · simp_all

/-- Appends digits to a number as long as it stays within 64 bits, and gives back those that are
left over. -/
def appendDigits (value : Nat) : List Char → Nat × List Char
  | [] => (value, [])
  | c :: cs =>
    let next := 10 * value + (c.toNat - 0x30)
    if next < 18446744073709551616 then appendDigits next cs else (value, c :: cs)

/-- A number by its leading digits, as many as fit 64 bits. -/
def leadingDigits (whole fraction : List Char) (power : Int) : Number.Scaled :=
  let (value, dropped) := appendDigits 0 whole
  let (value, lost) := appendDigits value fraction
  ⟨value, power + dropped.length - (fraction.length - lost.length : Nat)⟩

/-- Whether a number is in the range of doubles. Its coefficient and its power of ten are rounded
before they are multiplied, so that some numbers just below the greatest double are refused. -/
def inRange (s : Number.Scaled) : Bool :=
  s.coefficient == 0 || s.power ≤ 0 ||
    (s.power ≤ 308 && (do
      let x ← Number.Binary64.ofDecimal s.coefficient 0
      let y ← Number.Binary64.ofDecimal 1 s.power
      x.mul? y).isSome)

/-- Negative zero is not a whole number. -/
def value (negative : Bool) (whole fraction : List Char) (power : Option Int)
    (written : List Char) : Json :=
  let n := Number.ofDigits whole
  if fraction.isEmpty && power.isNone && !(negative && n == 0) then
    .int (if negative then -n else n)
  else .real (String.ofList written)

def unsigned? (negative : Bool) (cs : List Char) : Option (Json × List Char) := do
  let (whole, rest) ← whole? cs
  let (fraction, rest) ← fraction? rest
  let (power, rest) ← exponent? rest
  if inRange (leadingDigits whole fraction (power.getD 0)) then
    let written := cs.take (cs.length - rest.length)
    let written := if negative then '-' :: written else written
    return (value negative whole fraction power written, rest)
  else none

theorem unsigned?_length {negative : Bool} {cs rest : List Char} {j : Json}
    (h : unsigned? negative cs = some (j, rest)) : rest.length < cs.length := by
  simp only [unsigned?, Option.bind_eq_bind, Option.bind_eq_some_iff, Prod.exists] at h
  obtain ⟨whole, r₁, hw, fraction, r₂, hf, power, r₃, he, h⟩ := h
  have := whole?_length hw
  have := fraction?_length hf
  have := exponent?_length he
  split at h
  · simp only [Option.pure_def, Option.some.injEq, Prod.mk.injEq] at h
    rw [← h.2]
    omega
  · simp at h

/-- The number in front, and what follows it. -/
def read? (cs : List Char) : Option (Json × List Char) :=
  match cs with
  | '-' :: rest => unsigned? true rest
  | _ => unsigned? false cs

theorem read?_length {cs rest : List Char} {j : Json}
    (h : read? cs = some (j, rest)) : rest.length < cs.length := by
  unfold read? at h
  split at h
  · have := unsigned?_length h
    simp only [List.length_cons]
    omega
  · exact unsigned?_length h

end FetchOData.Json.Numeral
