import LiveLisp.Text.Digits
import LiveLisp.Text.Split
/-!
# Network addresses

A host may be given by name or by number. Numeric hosts are shown in one spelling: a version 6
address in brackets, its groups in hexadecimal without leading zeros, and the first of its longest
runs of zero groups left out.
-/

namespace LiveLisp.Backend

open Text (number?)

/-- A numeric host: four octets or eight groups of sixteen bits. -/
inductive HostNumber where
  | v4 (octets : List Nat)
  | v6 (groups : List Nat)
  deriving DecidableEq, Repr, Inhabited

namespace HostNumber

/-- An octet in decimal, without leading zeros. -/
def octet? (digits : List Char) : Option Nat :=
  if digits.length > 3 ∨ (digits.length > 1 ∧ digits.head? = some '0') then none
  else
    match number? 10 digits with
    | some n => if n < 256 then some n else none
    | none => none

/-- A group of up to four hexadecimal digits. -/
def group? (digits : List Char) : Option Nat :=
  if digits.length > 4 then none else number? 16 digits

/-- Four octets between dots. -/
def octets? (text : List Char) : Option (List Nat) :=
  match (text.splitOn '.').mapM octet? with
  | some octets => if octets.length = 4 then some octets else none
  | none => none

/-- The two groups that four octets fill. -/
def pairOctets : List Nat → List Nat
  | a :: b :: rest => (a * 256 + b) :: pairOctets rest
  | _ => []

/-- Groups between colons; the last may be spelled as four octets and then counts as two. -/
def groups? : List (List Char) → Option (List Nat)
  | [] => some []
  | [piece] =>
    match group? piece with
    | some g => some [g]
    | none => (octets? piece).map pairOctets
  | piece :: pieces =>
    match group? piece, groups? pieces with
    | some g, some gs => some (g :: gs)
    | _, _ => none

/-- Groups in a part of an address, which may be empty. -/
def part? (text : List Char) : Option (List Nat) :=
  if text.isEmpty then some [] else groups? (text.splitOn ':')

/-- What comes before the first double colon, and what comes after it. -/
def splitAtGap : List Char → Option (List Char × List Char)
  | ':' :: ':' :: rest => some ([], rest)
  | c :: rest => (splitAtGap rest).map fun (before, after) => (c :: before, after)
  | [] => none

/-- A version 6 address: eight groups, or fewer with a gap that stands for the missing ones. Four
octets may only end an address. -/
def groupsOf? (text : List Char) : Option (List Nat) :=
  match splitAtGap text with
  | none =>
    match groups? (text.splitOn ':') with
    | some groups => if groups.length = 8 then some groups else none
    | none => none
  | some (before, after) =>
    if before.contains '.' then none
    else
      match part? before, part? after with
      | some front, some back =>
        if front.length + back.length < 8 then
          some (front ++ List.replicate (8 - front.length - back.length) 0 ++ back)
        else none
      | _, _ => none

/-- The numeric host that a text spells. -/
def ofText? (text : String) : Option HostNumber :=
  match octets? text.toList with
  | some octets => some (.v4 octets)
  | none => (groupsOf? text.toList).map .v6

/-- Octets between dots. -/
def octetsText (octets : List Nat) : String := ".".intercalate (octets.map toString)

/-- A group in hexadecimal. -/
def groupText (group : Nat) : String := String.ofList (Nat.toDigits 16 group)

/-- The two octets of a group. -/
def octetsOfGroup (group : Nat) : List Nat := [group / 256, group % 256]

/-- How many zeros the list starts with. -/
def leadingZeros (groups : List Nat) : Nat := (groups.takeWhile (· = 0)).length

/-- Where the first of the longest runs of zeros starts, and its length. -/
def longestRun (groups : List Nat) : Nat × Nat :=
  (List.range groups.length).foldl (fun best i =>
    let run := leadingZeros (groups.drop i)
    if run > best.2 then (i, run) else best) (0, 0)

/-- Groups between colons. -/
def groupsText (groups : List Nat) : String := ":".intercalate (groups.map groupText)

/-- The one spelling of a numeric host. -/
def render : HostNumber → String
  | .v4 octets => octetsText octets
  | .v6 groups =>
    match groups with
    | [0, 0, 0, 0, 0, 0xffff, high, low] =>
      "::ffff:" ++ octetsText (octetsOfGroup high ++ octetsOfGroup low)
    | groups =>
      let (start, run) := longestRun groups
      if run > 1 then
        groupsText (groups.take start) ++ "::" ++ groupsText (groups.drop (start + run))
      else groupsText groups

end HostNumber

/-- A host and a port as they are shown in messages. -/
def addressText (host : String) (port : Nat) : String :=
  match HostNumber.ofText? host with
  | some (.v4 octets) => (HostNumber.v4 octets).render ++ ":" ++ toString port
  | some (.v6 groups) => "[" ++ (HostNumber.v6 groups).render ++ "]:" ++ toString port
  | none => host ++ ":" ++ toString port

end LiveLisp.Backend
