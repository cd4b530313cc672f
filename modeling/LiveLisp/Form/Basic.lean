import LiveLisp.Decimal.Double
import LiveLisp.Form.Symbol
import LiveLisp.Text.Position
/-!
# Forms

A form is a value read from source text together with the position of its first character.
Positions take no part in equality.
-/

namespace LiveLisp

open Text (Position)
open Decimal (Double)

/-- Values without parts. Integers that are read fit in 64 bits. -/
inductive Atom where
  | nil
  | bool (value : Bool)
  | int (value : Int)
  | float (value : Double)
  | str (text : String)
  | char (value : Char)
  | keyword (name : Symbol)
  | symbol (name : Symbol)
  deriving DecidableEq, Repr, Inhabited

namespace Atom

/-- Equality of values: floats compare as numbers. -/
def same : Atom → Atom → Bool
  | .float x, .float y => x.sameNumber y
  | a, b => a == b

end Atom

/-- A value with the position of its first character. -/
inductive Form where
  | atom (pos : Position) (value : Atom)
  | list (pos : Position) (items : List Form)
  | vector (pos : Position) (items : List Form)
  | set (pos : Position) (items : List Form)
  | map (pos : Position) (entries : List (Form × Form))
  deriving Repr, Inhabited

namespace Form

/-- Where the first character of the form stands. -/
def pos : Form → Position
  | .atom p _ | .list p _ | .vector p _ | .set p _ | .map p _ => p

/-- The symbol written as `token`, as a form. -/
def symbol (token : String) (p : Position) : Form := .atom p (.symbol (Symbol.ofText token))

/-- The keyword with the given name, as a form. -/
def keyword (name : Symbol) (p : Position) : Form := .atom p (.keyword name)

/-- The text of a string literal, as a form. -/
def str (text : String) (p : Position) : Form := .atom p (.str text)

def symbol? : Form → Option Symbol
  | .atom _ (.symbol s) => some s
  | _ => none

def keyword? : Form → Option Symbol
  | .atom _ (.keyword s) => some s
  | _ => none

def str? : Form → Option String
  | .atom _ (.str s) => some s
  | _ => none

def list? : Form → Option (List Form)
  | .list _ xs => some xs
  | _ => none

/-- The items of a list or a vector. -/
def items? : Form → Option (List Form)
  | .list _ xs | .vector _ xs => some xs
  | _ => none

/-- The symbol at the head of a list. -/
def head? : Form → Option Symbol
  | .list _ (x :: _) => x.symbol?
  | _ => none

/-- Whether this is a list headed by the plain symbol `name`. -/
def isHeadedBy (f : Form) (name : String) : Bool := f.head?.any (·.isPlain name)

/-- The name, if the form is a symbol without namespace. -/
def plainName? (f : Form) : Option String := f.symbol?.bind Symbol.plainName?

/-- Whether this is the keyword with the given namespace and name. -/
def isKeyword (f : Form) (ns : Option String) (name : String) : Bool :=
  f.keyword? == some ⟨ns, name⟩

/-- Takes one `(quote x)` off. -/
def unquote : Form → Form
  | .list p [head, quoted] =>
    if head.symbol?.any (·.isPlain "quote") then quoted else .list p [head, quoted]
  | f => f

/-- Forms two by two, if their number is even. -/
def pairUp : List Form → Option (List (Form × Form))
  | [] => some []
  | [_] => none
  | k :: v :: rest => (pairUp rest).map ((k, v) :: ·)

mutual

/-- Equality of values, positions aside. -/
def same : Form → Form → Bool
  | .atom _ a, .atom _ b => a.same b
  | .list _ xs, .list _ ys => sameAll xs ys
  | .vector _ xs, .vector _ ys => sameAll xs ys
  | .set _ xs, .set _ ys => sameAll xs ys
  | .map _ es, .map _ fs => sameEntries es fs
  | _, _ => false

/-- Equality item by item. -/
def sameAll : List Form → List Form → Bool
  | [], [] => true
  | x :: xs, y :: ys => same x y && sameAll xs ys
  | _, _ => false

/-- Equality entry by entry. -/
def sameEntries : List (Form × Form) → List (Form × Form) → Bool
  | [], [] => true
  | (k, v) :: es, (l, w) :: fs => same k l && same v w && sameEntries es fs
  | _, _ => false

end

mutual

/-- How deep forms are nested; a form without parts has depth one. -/
def depth : Form → Nat
  | .atom .. => 1
  | .list _ xs | .vector _ xs | .set _ xs => depthAll xs + 1
  | .map _ es => depthEntries es + 1

/-- The greatest depth of forms side by side. -/
def depthAll : List Form → Nat
  | [] => 0
  | x :: xs => max (depth x) (depthAll xs)

/-- The greatest depth of keys and values. -/
def depthEntries : List (Form × Form) → Nat
  | [] => 0
  | (k, v) :: es => max (max (depth k) (depth v)) (depthEntries es)

end

end Form

end LiveLisp
