import LiveLisp.Files.Pathname
/-!
# Session options

Options come in layers: what a caller asks for goes over what a backend suggests, and that over
the built-in defaults. In every layer an option may be left open.
-/

namespace LiveLisp

/-- One layer of options. With an output directory, units are laid out there before they are
loaded. -/
structure Options where
  outputDir : Option Files.Pathname
  sourceMap : Option Bool
  verbose : Option Bool
  colors : Option Bool
  deriving DecidableEq, Repr, Inhabited

namespace Options

/-- The layer that leaves everything open. -/
def none : Options := ⟨Option.none, Option.none, Option.none, Option.none⟩

/-- What is open in `o` is taken from `defaults`. -/
def withDefaults (o defaults : Options) : Options :=
  ⟨o.outputDir <|> defaults.outputDir, o.sourceMap <|> defaults.sourceMap,
    o.verbose <|> defaults.verbose, o.colors <|> defaults.colors⟩

/-- Whether scripts carry source maps; by default they do not. -/
def wantsSourceMap (o : Options) : Bool := o.sourceMap.getD false

/-- Whether generated scripts are printed; by default they are not. -/
def isVerbose (o : Options) : Bool := o.verbose.getD false

/-- Whether failures are printed in color; by default they are. -/
def isColored (o : Options) : Bool := o.colors.getD true

/-- The layer with the built-in defaults filled in. An output directory has none. -/
def effective (o : Options) : Options :=
  o.withDefaults ⟨Option.none, some false, some false, some true⟩

theorem wantsSourceMap_effective (o : Options) :
    o.effective.wantsSourceMap = o.wantsSourceMap := by
  simp only [effective, withDefaults, wantsSourceMap]
  cases o.sourceMap <;> rfl

theorem withDefaults_assoc (a b c : Options) :
    (a.withDefaults b).withDefaults c = a.withDefaults (b.withDefaults c) := by
  simp only [withDefaults]
  cases a.outputDir <;> cases a.sourceMap <;> cases a.verbose <;> cases a.colors <;> rfl

end Options

/-- How much is logged. -/
inductive LogLevel where
  | warn
  | debug
  deriving DecidableEq, Repr, Inhabited

/-- A verbose session logs more. -/
def LogLevel.ofVerbose (verbose : Bool) : LogLevel := if verbose then .debug else .warn

end LiveLisp
