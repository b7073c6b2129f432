import FetchOData.Number.Integer

namespace FetchOData

/-- A 128-bit identifier, as its hexadecimal digits. -/
structure Guid where
  nibbles : List (Fin 16)
  length_nibbles : nibbles.length = 32
deriving DecidableEq, Repr

inductive GuidFault where
  | length (found : Nat)
  | character (found : Char) (index : Nat)
  | groupCount (found : Nat)
  | groupLength (group expected found : Nat)
deriving DecidableEq, Repr

def GuidFault.message : GuidFault → String
  | length found => "invalid length: found " ++ Number.integerText found
  | character found index =>
    "invalid character: found `" ++ String.singleton found ++ "` at " ++ Number.integerText index
  | groupCount found => "invalid group count: expected 5, found " ++ Number.integerText found
  | groupLength group expected found =>
    "invalid group length in group " ++ Number.integerText group ++ ": expected " ++
      Number.integerText expected ++ ", found " ++ Number.integerText found

namespace Guid

def nibble? (c : Char) : Option (Fin 16) :=
  if '0' ≤ c ∧ c ≤ '9' then some (Fin.ofNat 16 (c.toNat - 0x30))
  else if 'a' ≤ c ∧ c ≤ 'f' then some (Fin.ofNat 16 (c.toNat - 0x61 + 10))
  else if 'A' ≤ c ∧ c ≤ 'F' then some (Fin.ofNat 16 (c.toNat - 0x41 + 10))
  else none

/-- The lengths of the groups that hyphens separate. -/
def groups : List Nat := [8, 4, 4, 4, 12]

/-- Digits in groups of the given lengths, a hyphen between one group and the next. -/
def grouped? : List Nat → List Char → Option (List (Fin 16))
  | [], cs => if cs.isEmpty then some [] else none
  | [n], cs => if cs.length = n then cs.mapM nibble? else none
  | n :: ns, cs => do
    let first ← (cs.take n).mapM nibble?
    match cs.drop n with
    | '-' :: rest => return first ++ (← grouped? ns rest)
    | _ => none

theorem length_mapM_nibble? {cs : List Char} {xs : List (Fin 16)} (h : cs.mapM nibble? = some xs) :
    xs.length = cs.length := by
  induction cs generalizing xs with
  | nil =>
    cases h
    rfl
  | cons c cs ih =>
    simp only [List.mapM_cons, Option.bind_eq_bind, Option.bind_eq_some_iff, Option.pure_def,
      Option.some.injEq] at h
    obtain ⟨_, _, rest, hr, rfl⟩ := h
    simp [ih hr]

theorem length_grouped? {ns : List Nat} {cs : List Char} {xs : List (Fin 16)}
    (h : grouped? ns cs = some xs) : xs.length = ns.foldr (· + ·) 0 := by
  fun_induction grouped? ns cs generalizing xs with
  | case1 => simp_all
  | case2 => simp_all
  | case3 => simp_all [length_mapM_nibble? h]
  | case4 => simp at h
  | case5 n ns cs _ ih =>
    simp only [Option.bind_eq_bind, Option.bind_eq_some_iff] at h
    obtain ⟨first, hf, h⟩ := h
    split at h
    · next rest hd =>
      simp only [Option.bind_eq_some_iff, Option.pure_def, Option.some.injEq] at h
      obtain ⟨others, ho, rfl⟩ := h
      have hl := congrArg List.length hd
      simp only [List.length_drop, List.length_cons] at hl
      simp only [List.length_append, length_mapM_nibble? hf, List.length_take, List.foldr_cons,
        ih _ ho]
      omega
    · simp at h

def urn : List Char := "urn:uuid:".toList

def startsWithUrn (cs : List Char) : Bool :=
  (cs.take urn.length).map Char.toLower == urn

def byteSize (cs : List Char) : Nat :=
  cs.foldl (fun n c => n + c.utf8Size) 0

/-- The text between braces, if it stands between them. -/
def unbraced? : List Char → Option (List Char)
  | '\x7b' :: cs => if cs.getLast? = some '\x7d' then some cs.dropLast else none
  | _ => none

/-- The text inside the wrapping that its length announces: none, braces or the urn scheme. -/
def hyphenatedPart? (cs : List Char) : Option (List Char) :=
  match byteSize cs with
  | 36 => some cs
  | 38 => unbraced? cs
  | 45 => if startsWithUrn cs then some (cs.drop urn.length) else none
  | _ => none

/-- The identifier spelled in groups that have 32 digits together. -/
def ofGroups? (ns : List Nat) (hns : ns.foldr (· + ·) 0 = 32) (cs : List Char) : Option Guid :=
  match h : grouped? ns cs with
  | some nibbles => some ⟨nibbles, (length_grouped? h).trans hns⟩
  | none => none

def accept? (cs : List Char) : Option Guid :=
  match hyphenatedPart? cs with
  | some inner => ofGroups? groups rfl inner
  | none => ofGroups? [32] rfl cs

/-- The positions of the hyphens, or the first character that is neither a hyphen nor a digit. -/
def hyphens (offset position : Nat) : List Char → Except GuidFault (List Nat)
  | [] => .ok []
  | c :: cs =>
    if c = '-' then (hyphens offset (position + 1) cs).map (position :: ·)
    else if (nibble? c).isSome then hyphens offset (position + 1) cs
    else .error (.character c (offset + position))

/-- Which group has the wrong length, given the position of the hyphen that ends each of the first
four. When those are right it is the last one, and `size` bytes tell its length. -/
def misplaced (size : Nat) (positions : List Nat) : GuidFault :=
  let ends := [(8, 0), (13, 9), (18, 14), (23, 19)]
  let wrong := (positions.zip ends).zipIdx.findSome? fun ((p, stop, start), i) =>
    if p = stop then none else some (GuidFault.groupLength i (stop - start) (p - start))
  wrong.getD (.groupLength 4 12 (size - 24))

/-- The fault of a text with hyphens in it, or that should have them. -/
def groupFault (size : Nat) (positions : List Nat) : GuidFault :=
  if positions.length = 4 then misplaced size positions else .groupCount (positions.length + 1)

/-- What is wrong with a text that is not accepted. -/
def fault (cs : List Char) : GuidFault :=
  let size := byteSize cs
  if size = 0 || 45 < size then .length size
  else
    let scan (offset : Nat) (scanned : List Char) (whole : Nat) (bare : Bool) : GuidFault :=
      match hyphens offset 0 scanned with
      | .error f => f
      | .ok positions =>
        if bare && positions.isEmpty then .length whole else groupFault whole positions
    match hyphenatedPart? cs with
    | some inner => scan 0 inner (byteSize inner) false
    | none =>
      match unbraced? cs with
      | some inner => scan 1 inner size false
      | none =>
        if startsWithUrn cs then scan urn.length (cs.drop urn.length) size false
        else scan 0 cs size true

def ofChars (cs : List Char) : Except GuidFault Guid :=
  match accept? cs with
  | some g => .ok g
  | none => .error (fault cs)

def nibbleChar (n : Fin 16) : Char :=
  if n.val < 10 then Char.ofNat (0x30 + n.val) else Char.ofNat (0x61 + (n.val - 10))

def writeGroups : List Nat → List Char → List Char
  | [], _ => []
  | [_], cs => cs
  | n :: ns, cs => cs.take n ++ '-' :: writeGroups ns (cs.drop n)

/-- Lower case, with hyphens. -/
def text (g : Guid) : String :=
  String.ofList (writeGroups groups (g.nibbles.map nibbleChar))

end Guid

end FetchOData
