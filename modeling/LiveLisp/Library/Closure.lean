import LiveLisp.Library.Basic
/-!
# Dependency closures

The closure of a namespace lists the units it needs, every unit after those it requires, and last
the seed that names the request.
-/

namespace LiveLisp.Library

/-- The primary name of a unit. -/
def primaryName (lib : Library) (i : Nat) : String :=
  ((lib.units[i]?.bind fun u => u.provides.head?)).getD ""

/-- The names from `name` on along the stack, and `name` again. -/
def cycleFrom (name : String) (stack : List String) : List String :=
  let inner := stack.dropWhile (· ≠ name)
  (if inner.isEmpty then stack else inner) ++ [name]

/-- Visits the unit `i` depth first. `stack` holds the units being visited, outermost first, and
`order` those that are done. The namespace of the base script is nobody's. -/
def visit (lib : Library) : Nat → List Nat → List Nat → Nat → Except BuildError (List Nat)
  | 0, _, order, _ => .ok order
  | fuel + 1, stack, order, i =>
    if order.contains i then .ok order
    else if stack.contains i then
      .error (.cycle (cycleFrom (lib.primaryName i) (stack.map lib.primaryName)))
    else
      let requires := ((lib.units[i]?.map CompiledUnit.requires).getD []).filter (· ≠ "goog")
      let step := fun order ns =>
        match lib.provider ns with
        | .ok j => lib.visit fuel (stack ++ [i]) order j
        | .error e => .error e
      match requires.foldlM step order with
      | .ok order => .ok (order ++ [i])
      | .error e => .error e

/-- The units that `ns` needs, dependencies first, and then the seed. -/
def closure (lib : Library) (ns : String) : Except BuildError (List Record) :=
  match lib.provider ns with
  | .error e => .error e
  | .ok root =>
    match lib.visit (lib.units.length + 1) [] [] root with
    | .error e => .error e
    | .ok order =>
      let units := order.filterMap (lib.units[·]?)
      .ok (units.map Record.ofUnit ++ (lib.units[root]?.map (Record.seedOf ns)).toList)

end LiveLisp.Library
