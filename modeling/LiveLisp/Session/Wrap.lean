import LiveLisp.Form.Basic
/-!
# Wrapping of forms

A form typed at the prompt is wrapped so that its value is printed and kept in `*1`, `*2` and
`*3`, or its failure in `*e`. Declarations go as they are, and looking at a kept value does not
change what is kept.
-/

namespace LiveLisp.Session

open Text (Position)

/-- How a form is wrapped before evaluation. -/
inductive Wrap where
  | identity
  | printOnly
  | record
  deriving DecidableEq, Repr, Inhabited

namespace Wrap

/-- The symbols that stand for kept values. -/
def isResultSlot (s : Symbol) : Bool :=
  s.ns.isNone && ["*1", "*2", "*3", "*e"].contains s.name

/-- How a form typed at the prompt is wrapped. -/
def ofForm (form : Form) : Wrap :=
  if form.isHeadedBy "ns" then .identity
  else if form.symbol?.any isResultSlot then .printOnly
  else .record

/-- `(set! target value)`. -/
def assignment (p : Position) (target value : String) : Form :=
  .list p [.symbol "set!" p, .symbol target p, .symbol value p]

/-- `(pr-str value)`. -/
def printing (p : Position) (value : Form) : Form := .list p [.symbol "pr-str" p, value]

/-- Evaluates the form, shifts the kept values, and prints; a failure is kept and thrown on. -/
def recording (p : Position) (form : Form) : Form :=
  let value := "ret__auto__"
  let failure := "e__auto__"
  .list p
    [.symbol "try" p,
      .list p
        [.symbol "let" p, .vector p [.symbol value p, form],
          assignment p "*3" "*2", assignment p "*2" "*1", assignment p "*1" value,
          printing p (.symbol value p)],
      .list p
        [.symbol "catch" p, .keyword (.plain "default") p, .symbol failure p,
          assignment p "*e" failure, .list p [.symbol "throw" p, .symbol failure p]]]

/-- The wrapped form, at the position of the form. -/
def apply (wrap : Wrap) (form : Form) : Form :=
  match wrap with
  | .identity => form
  | .printOnly => printing form.pos form
  | .record => recording form.pos form

end Wrap

end LiveLisp.Session
