import LiveLisp.Analysis.Stack
import LiveLisp.Proofs.Script.Balance
import LiveLisp.Proofs.Script.Operands
import Mathlib.Data.List.Chain
/-!
# What accesses, calls and constructions apply to

An access is written behind the text of its target, and `new` in front of the text of its
constructor, without brackets.  Reading an operand where the target begins has to get to its end,
and behind `new` it has to get to the end of the constructor without a call.  This fails exactly
for numbers, which take the point of an access, or are signed, and for constructors that call
something.
-/

namespace LiveLisp.Script

open Analysis (Ast NsDecl)
open Munge (definitionPath)

/-! ## Nodes that stand alone -/

/-- What comes behind the text of a node. -/
inductive Follower where
  | point
  | bracket
  deriving DecidableEq

/-- Whether a value is read as an operand up to what follows: a number may not have a sign, and in
front of a point it needs a point of its own. -/
def Follower.admitsAtom (f : Follower) : Atom → Bool
  | .int n => f == .bracket && 0 ≤ n
  | .float (.finite negative m e) =>
    !negative && (f == .bracket || !(Decimal.shortest .up m e).places.2.isEmpty)
  | _ => true

def Follower.admitsForm (f : Follower) : Form → Bool
  | .atom _ a => f.admitsAtom a
  | _ => true

/-- Whether a node begins as an operand that goes on up to what follows. -/
def Follower.admits (f : Follower) : Ast → Bool
  | .const _ value => f.admitsForm value
  | .quote _ form => f.admitsForm form
  | .block _ [only] => f.admits only
  | _ => true

/-- Whether data is written without a call. -/
def isCallFreeForm : Form → Bool
  | .atom _ (.keyword _) | .atom _ (.symbol _) => false
  | .atom _ _ => true
  | .list _ items => items.isEmpty
  | _ => false

/-- Whether a node is written without a call outside of brackets. -/
def isCallFree : Ast → Bool
  | .const _ value => isCallFreeForm value
  | .quote _ form => isCallFreeForm form
  | .vector .. | .set .. | .map .. | .ns .. | .bind .. | .throw .. | .guard .. | .method ..
  | .invoke .. => false
  | .block _ [only] => isCallFree only
  | .field _ target _ => isCallFree target
  | _ => true

/-- What an access or a call is written behind. -/
def target? : Ast → Option Ast
  | .method _ target _ _ | .field _ target _ | .invoke _ target _ => some target
  | _ => none

/-- What is written behind `new`. -/
def constructor? : Ast → Option Ast
  | .new _ ctor _ => some ctor
  | _ => none

/-- The target of an access is an operand up to the point, and a constructor is one without a call
up to its arguments. -/
def isSound (a : Ast) : Bool :=
  (target? a).all Follower.point.admits &&
    (constructor? a).all fun ctor => Follower.bracket.admits ctor && isCallFree ctor

/-! ## What it means to apply -/

/-- Whether an operand may begin behind a text: nothing runs over from it. -/
def opensOperand (before : List Char) : Bool :=
  before.getLast?.all fun c => c = '(' || c = '[' || c = ' ' || c = '\n'

variable (A : Alphabet)

/-- In the script `js`, reading an operand behind `before` gets to the end of `text` and goes on
from there. -/
def AppliesTo (calls : Bool) (js before text : List Char) : Prop :=
  opensOperand before = true ∧ ∃ rest, js = before ++ text ++ rest ∧
    Reads A calls (text ++ rest) rest ∧ (link A true rest).isSome

/-- The access, the call or the construction of a node applies to the whole text of its target,
its callee or its constructor. -/
def Applies (js : List Char) (e : List Char × Ast) : Prop :=
  (∀ target ∈ target? e.2, AppliesTo A true js e.1 (chars target)) ∧
    ∀ ctor ∈ constructor? e.2, AppliesTo A false js (e.1 ++ "(new ".toList) (chars ctor)

/-- Every name that a node writes is a path of identifiers. -/
def Named (a : Ast) : Prop := ∀ name ∈ ownNames a, IsPath A name.toList

variable {A}

theorem Named.plainNames {a : Ast} (h : Named A a) : PlainNames a :=
  fun name hname => isPlain_of_isPath (h name hname)

/-! ## Sound nodes are operands -/

theorem operand_path (text : List Char) (h : isAsciiPath text = true) : Operand A false text :=
  .path (isPath_of_isAsciiPath h)

theorem operand_nameCall {constructor : String} (h : isAsciiPath constructor.toList = true)
    (s : Symbol) : Operand A true (nameCall constructor s).toList := by
  obtain ⟨inner, heq, hinner⟩ := nameCall_eq constructor s
  rw [heq]
  exact .call (operand_path _ h) hinner

/-- Unsigned numbers with a point, and all other values. -/
theorem operand_atomLiteral {a : Atom} (pos : Text.Position)
    (h : Follower.point.admitsAtom a = true) :
    Operand A (!isCallFreeForm (.atom pos a)) (atomLiteral a).toList := by
  cases a with
  | nil => exact operand_path "null".toList (by decide)
  | bool b =>
    cases b with
    | false => exact operand_path "false".toList (by decide)
    | true => exact operand_path "true".toList (by decide)
  | int n => simp [Follower.admitsAtom] at h
  | float x =>
    cases x with
    | infinite negative =>
      cases negative with
      | false => exact operand_path "Infinity".toList (by decide)
      | true => exact Operand.group (by decide : Balanced "-Infinity".toList)
    | finite negative m e =>
      obtain ⟨hne, hwhole, hrest⟩ := isDigit_of_mem_places (Decimal.shortest .up m e)
      simp only [Follower.admitsAtom, Bool.and_eq_true, Bool.not_eq_true', Bool.or_eq_true,
        List.isEmpty_eq_false_iff] at h
      obtain ⟨rfl, hpoint⟩ := h
      have hfraction := hpoint.resolve_left (by decide)
      have hnumber := Operand.number (A := A) hne hfraction (by
        intro c hc
        rcases List.mem_append.mp hc with hc | hc
        · exact hwhole c hc
        · exact hrest c hc)
      simpa [isCallFreeForm, atomLiteral, numberLiteral, Decimal.Double.positional,
        Decimal.signText, Scaled.positional_eq] using hnumber
  | str s => exact .string s
  | char c => exact .string _
  | keyword k => exact operand_nameCall (by decide) k
  | symbol s => exact operand_nameCall (by decide) s

theorem operand_builder {builder : String} (h : builder ∈ builders) :
    Operand A false builder.toList := by
  have hall : ∀ b ∈ builders, isAsciiPath b.toList = true := by decide +kernel
  exact operand_path _ (hall builder h)

theorem operand_datum {f : Form} (h : Follower.point.admitsForm f = true) :
    Operand A (!isCallFreeForm f) (datum f).toList := by
  have hcalled : (∀ pos a, f ≠ .atom pos a) → (∀ pos, f ≠ .list pos []) →
      Operand A true (datum f).toList := by
    intro hatom hempty
    obtain ⟨builder, hbuilder, inner, heq, hinner⟩ :=
      datum_eq_called (fun g _ => balanced_datum g) hatom hempty
    rw [heq]
    exact .call (operand_builder hbuilder) hinner
  cases f with
  | atom pos a => exact operand_atomLiteral pos h
  | list pos items =>
    cases items with
    | nil => exact operand_path "cljs.core.List.EMPTY".toList (by decide +kernel)
    | cons x xs => exact hcalled (by simp) (by simp)
  | vector | set | map => exact hcalled (by simp) (by simp)

theorem isCallFree_of_bracketed {a : Ast} {inner : List Segment} (h : bracketed? a = some inner) :
    isCallFree a = !isCalled a := by
  cases a with
  | block pos body =>
    rcases body with _ | ⟨first, _ | ⟨second, rest⟩⟩
    · simp [bracketed?] at h
    · simp [bracketed?] at h
    · simp [isCallFree, isCalled]
  | ns | define | cond | bind | func | assign | throw | guard | new => rfl
  | _ => simp [bracketed?] at h

theorem isCallFree_of_collection {a : Ast} {found : String × List Segment}
    (h : collection? a = some found) : isCallFree a = false := by
  cases a with
  | vector | set | map => rfl
  | _ => simp [collection?] at h

/-- A node that begins as an operand is one, if it is sound itself. -/
theorem operand_chars {a : Ast} (hnames : Everywhere (Named A) a)
    (hsound : Everywhere (fun b => isSound b = true) a) (h : Follower.point.admits a = true) :
    Operand A (!isCallFree a) (chars a) := by
  induction a using Ast.induct with
  | step a ih =>
    obtain ⟨hname, hnameParts⟩ := (everywhere_iff _ a).mp hnames
    obtain ⟨hnode, hsoundParts⟩ := (everywhere_iff _ a).mp hsound
    obtain ⟨hpoint, -⟩ := Bool.and_eq_true_iff.mp hnode
    have hpart : ∀ b ∈ a.parts, Follower.point.admits b = true →
        Operand A (!isCallFree b) (chars b) :=
      fun b hb => ih b hb (hnameParts b hb) (hsoundParts b hb)
    have hbalanced : ∀ b ∈ a.parts, Balanced (chars b) :=
      fun b hb => balanced_chars ((hnameParts b hb).imp fun _ => Named.plainNames)
    cases writing a with
    | bracketed hbracketed =>
      have hinner := balanced_inner hbalanced (fun b hb => filterMap_bracketed hbracketed ▸ hb)
        (openBehind_bracketed hbracketed hname.plainNames)
      rw [chars_bracketed hbracketed, isCallFree_of_bracketed hbracketed, Bool.not_not]
      cases isCalled a with
      | true => exact .call (.group hinner) closed_nil
      | false => exact .group hinner
    | collection hcollection =>
      obtain ⟨hbuilder, hchars, hopen⟩ := chars_collection hcollection
      rw [hchars, isCallFree_of_collection hcollection]
      exact .call (operand_builder hbuilder)
        (balanced_inner hbalanced (fun b hb => filterMap_collection hcollection ▸ hb) hopen)
    | const pos datum | quote pos datum =>
      simpa [chars_eq, template, Segment.chars, isCallFree] using operand_datum h
    | var pos ns name =>
      have hpath := Operand.path (hname (definitionPath ns name) (by simp [ownNames]))
      simpa [chars_eq, template, Segment.chars, isCallFree] using hpath
    | «local» pos name | global pos name =>
      have hpath := Operand.path (hname name (by simp [ownNames]))
      simpa [chars_eq, template, Segment.chars, isCallFree] using hpath
    | null pos =>
      have hnull : Operand A false "null".toList := operand_path _ (by decide)
      simpa [chars_eq, template, Segment.chars, isCallFree] using hnull
    | only pos b =>
      rw [chars_block_one]
      exact hpart b (by simp [Ast.parts]) h
    | method pos target name args =>
      rw [chars_method]
      have htarget := hpart target (by simp [Ast.parts]) hpoint
      refine .call (.member htarget (hname name (by simp [ownNames]))) ?_
      exact balanced_inner hbalanced (by simp +contextual [Ast.parts])
        (openBehind_commaSeparated [] args)
    | field pos target name =>
      rw [chars_field]
      have htarget := hpart target (by simp [Ast.parts]) hpoint
      exact .member htarget (hname name (by simp [ownNames]))
    | invoke pos callee args =>
      rw [chars_invoke]
      have hcallee := hpart callee (by simp [Ast.parts]) hpoint
      refine .call (.member hcallee (isPath_of_isAsciiPath (by decide))) ?_
      exact balanced_inner hbalanced (by simp +contextual [Ast.parts]) (openBehind_arguments args)

/-! ## Numbers take the point -/

def Follower.sign : Follower → Char
  | .point => '.'
  | .bracket => '('

theorem length_exponentEnd_le (text : List Char) : (exponentEnd text).length ≤ text.length := by
  have hdrop : ∀ digits : List Char, (digits.dropWhile Char.isDigit).length ≤ digits.length :=
    fun digits => (List.dropWhile_suffix _).length_le
  match text with
  | [] => exact Nat.le_refl _
  | [mark] => simp [exponentEnd]
  | mark :: sign :: digits =>
    have hsigned := hdrop digits
    have hunsigned := hdrop (sign :: digits)
    simp only [List.length_cons] at hunsigned
    simp only [exponentEnd]
    repeat' split
    all_goals
      simp only [List.length_cons]
      omega

theorem length_of_numberEnd {whole more begun : List Char}
    (hdigits : ∀ c ∈ whole, c.isDigit = true)
    (h : numberEnd A (whole ++ '.' :: more) = some begun) : begun.length ≤ more.length := by
  have hpoint : ∀ c ∈ ('.' :: more).head?, c.isDigit = false := by simp
  have hfraction : (more.dropWhile Char.isDigit).length ≤ more.length :=
    (List.dropWhile_suffix _).length_le
  have hexponent := length_exponentEnd_le (more.dropWhile Char.isDigit)
  simp only [numberEnd, dropWhile_of_stops hdigits hpoint, fractionEnd] at h
  split at h
  · simp at h
  · obtain rfl := Option.some.inj h
    omega

theorem primary_minus (rest : List Char) : primary A ('-' :: rest) = none := by
  have hstart : A.start '-' = false := by
    rw [A.start_ascii '-' (by decide)]
    decide
  simp [primary, hstart]

/-- A number that is no operand is not read to its end. -/
theorem length_of_primary_numeral {f : Follower} {negative : Bool} {whole rest : List Char}
    (hne : whole ≠ []) (hdigits : ∀ c ∈ whole, c.isDigit = true)
    (h : (!negative && (f == .bracket || !rest.isEmpty)) = false) {more begun : List Char}
    (hbegun : primary A ((if negative then ['-'] else []) ++ numeral whole rest ++ f.sign :: more) =
      some begun) : begun.length < (f.sign :: more).length := by
  cases negative with
  | true => simp [primary_minus] at hbegun
  | false =>
    obtain ⟨rfl, rfl⟩ : f = .point ∧ rest = [] := by
      cases f <;> simp_all
    obtain ⟨d, ds, rfl⟩ := List.exists_cons_of_ne_nil hne
    simp only [Bool.false_eq_true, if_false, numeral, if_true, List.nil_append,
      List.cons_append] at hbegun
    rw [primary_of_isDigit (hdigits d (by simp))] at hbegun
    have hle := length_of_numberEnd hdigits hbegun
    simp only [List.length_cons]
    omega

/-- A value that is not admitted everywhere is a number. -/
theorem exists_numeral_of_form {f : Follower} {form : Form} (h : f.admitsForm form = false) :
    ∃ negative whole rest, (datum form).toList =
        (if negative then ['-'] else []) ++ numeral whole rest ∧ whole ≠ [] ∧
      (∀ c ∈ whole, c.isDigit = true) ∧ isCallFreeForm form = true ∧
      ∀ g : Follower, g.admitsForm form = (!negative && (g == .bracket || !rest.isEmpty)) := by
  cases form with
  | atom pos a =>
    cases a with
    | int n =>
      refine ⟨decide (n < 0), Nat.toDigits 10 n.natAbs, [], ?_, Nat.toDigits_ne_nil,
        fun c hc => Text.isDigit_of_mem_toDigits_ten hc, rfl, ?_⟩
      · change (toString n).toList = _
        rw [Text.toList_toString_int, numeral, if_pos rfl]
        simp only [decide_eq_true_eq]
      · intro g
        by_cases hn : n < 0
        · simp [Follower.admitsForm, Follower.admitsAtom, hn]
        · simp [Follower.admitsForm, Follower.admitsAtom, hn, Int.not_lt.mp hn]
    | float x =>
      cases x with
      | infinite => simp [Follower.admitsForm, Follower.admitsAtom] at h
      | finite negative m e =>
        obtain ⟨hne, hwhole, -⟩ := isDigit_of_mem_places (Decimal.shortest .up m e)
        refine ⟨negative, (Decimal.shortest .up m e).places.1,
          (Decimal.shortest .up m e).places.2, ?_, hne, hwhole, rfl, fun g => rfl⟩
        rw [← Scaled.positional_eq]
        exact String.toList_ofList
    | _ => simp [Follower.admitsForm, Follower.admitsAtom] at h
  | _ => simp [Follower.admitsForm] at h

theorem exists_numeral {f : Follower} {a : Ast} (h : f.admits a = false) :
    ∃ negative whole rest, chars a = (if negative then ['-'] else []) ++ numeral whole rest ∧
      whole ≠ [] ∧ (∀ c ∈ whole, c.isDigit = true) ∧ isCallFree a = true ∧
      ∀ g : Follower, g.admits a = (!negative && (g == .bracket || !rest.isEmpty)) := by
  induction a using Ast.induct with
  | step a ih =>
    cases a with
    | const pos value | quote pos value =>
      rw [chars_eq]
      simp only [template, List.flatMap_cons, List.flatMap_nil, Segment.chars, List.append_nil]
      exact exists_numeral_of_form h
    | block pos body =>
      rcases body with _ | ⟨only, _ | ⟨second, rest⟩⟩
      · simp [Follower.admits] at h
      · rw [chars_block_one]
        exact ih only (by simp [Ast.parts]) h
      · simp [Follower.admits] at h
    | _ => simp [Follower.admits] at h

theorem length_of_primary_chars {f : Follower} {a : Ast} (h : f.admits a = false)
    {more begun : List Char} (hbegun : primary A (chars a ++ f.sign :: more) = some begun) :
    begun.length < (f.sign :: more).length := by
  obtain ⟨negative, whole, rest, hchars, hne, hdigits, -, hadmits⟩ := exists_numeral h
  rw [hchars] at hbegun
  exact length_of_primary_numeral hne hdigits ((hadmits f).symm.trans h) hbegun

/-- An unsigned number is read up to the arguments of `new`. -/
theorem reads_number {a : Ast} (hbracket : Follower.bracket.admits a = true)
    (hpoint : Follower.point.admits a = false) (calls : Bool) (more : List Char) :
    Reads A calls (chars a ++ '(' :: more) ('(' :: more) := by
  obtain ⟨negative, whole, rest, hchars, hne, hdigits, -, hadmits⟩ := exists_numeral hpoint
  obtain rfl : negative = false := by
    have hunsigned := (hadmits .bracket).symm.trans hbracket
    simpa using hunsigned
  obtain rfl : rest = [] := by
    have hwhole := (hadmits .point).symm.trans hpoint
    simpa using hwhole
  obtain ⟨d, ds, rfl⟩ := List.exists_cons_of_ne_nil hne
  refine ⟨'(' :: more, ?_, .refl⟩
  simp only [hchars, numeral, Bool.false_eq_true, if_false, if_true, List.nil_append,
    List.cons_append]
  rw [primary_of_isDigit (hdigits d (by simp)), ← List.cons_append]
  exact numberEnd_digits hdigits (stops_cons _ A.part_bracket) (by simp)

/-! ## Reading only goes forward -/

theorem length_of_closing {n : Nesting} {text rest : List Char} (h : closing n text = some rest) :
    rest.length < text.length := by
  induction text generalizing n with
  | nil => simp [closing] at h
  | cons c text ih =>
    simp only [closing] at h
    split at h
    · simp at h
    · split at h
      · obtain rfl := Option.some.inj h
        simp
      · have hlt := ih h
        simp only [List.length_cons]
        omega

theorem length_of_link {calls : Bool} {text rest : List Char} (h : link A calls text = some rest) :
    rest.length < text.length := by
  unfold link at h
  split at h
  · next c more =>
    split at h
    · obtain rfl := Option.some.inj h
      have hle : (more.dropWhile A.part).length ≤ more.length :=
        (List.dropWhile_suffix _).length_le
      simp only [List.length_cons]
      omega
    · simp at h
  · have hlt := length_of_closing h
    simp only [List.length_cons]
    omega
  · split at h
    · have hlt := length_of_closing h
      simp only [List.length_cons]
      omega
    · simp at h
  · simp at h

theorem length_of_links {calls : Bool} {text rest : List Char}
    (h : Relation.ReflTransGen (fun x y => link A calls x = some y) text rest) :
    rest.length ≤ text.length := by
  induction h with
  | refl => exact Nat.le_refl _
  | tail _ hlink ih => exact Nat.le_of_lt (Nat.lt_of_lt_of_le (length_of_link hlink) ih)

/-- Behind `new` reading stops at one place only. -/
theorem Reads.eq_of_bracket {text x y : List Char} (hx : Reads A false text ('(' :: x))
    (hy : Reads A false text ('(' :: y)) : x = y := by
  obtain ⟨begun, hbegun, hx⟩ := hx
  obtain ⟨begun', hbegun', hy⟩ := hy
  obtain rfl : begun = begun' := Option.some.inj (hbegun.symm.trans hbegun')
  have hstop : ∀ {x y : List Char},
      Relation.ReflTransGen (fun x y => link A false x = some y) ('(' :: x) ('(' :: y) → x = y := by
    intro x y h
    rcases Relation.ReflTransGen.cases_head h with h | ⟨z, hz, -⟩
    · exact (List.cons.inj h).2
    · simp [link] at hz
  have hunique : Relator.RightUnique fun x y : List Char => link A false x = some y := by
    intro x y z hy hz
    exact Option.some.inj (hy.symm.trans hz)
  rcases Relation.ReflTransGen.total_of_right_unique hunique hx hy with h | h
  · exact hstop h
  · exact (hstop h).symm

/-! ## Parts begin where operands may begin -/

/-- Whether a segment may stand behind another: in front of a part comes a text that lets an operand
begin. -/
def mayFollow : Segment → Segment → Prop
  | _, .text _ => True
  | .text t, .part _ => t.toList ≠ [] ∧ opensOperand t.toList = true
  | .part _, .part _ => False

/-- In front of every part but the first segment stands a text that lets an operand begin. -/
def Spaced (segments : List Segment) : Prop := segments.IsChain mayFollow

theorem Spaced.append {xs ys : List Segment} (hxs : Spaced xs) (hys : Spaced ys)
    (hhead : ∀ a, ys.head? ≠ some (.part a)) : Spaced (xs ++ ys) := by
  refine List.IsChain.append hxs hys ?_
  intro s _ s' hs'
  cases s' with
  | text t => cases s <;> trivial
  | part a => exact absurd hs' (hhead a)

theorem Spaced.append_text {xs ys : List Segment} {t : String} (hxs : Spaced xs)
    (hys : Spaced (.text t :: ys)) : Spaced (xs ++ .text t :: ys) :=
  hxs.append hys (by simp)

theorem Spaced.cons_text {t : String} {segments : List Segment} (h : Spaced segments)
    (ht : t.toList ≠ [] ∧ opensOperand t.toList = true) : Spaced (.text t :: segments) := by
  refine List.isChain_cons.mpr ⟨?_, h⟩
  intro s _
  cases s with
  | text => trivial
  | part => exact ht

theorem spaced_text (t : String) : Spaced [.text t] := List.isChain_singleton _

theorem Spaced.cons_part {segments : List Segment} {t : String} (a : Ast)
    (h : Spaced (.text t :: segments)) : Spaced (.part a :: .text t :: segments) :=
  List.IsChain.cons_cons trivial h

theorem spaced_part (a : Ast) : Spaced [.part a] := List.isChain_singleton _

theorem spaced_commaSeparated (xs : List Ast) : Spaced (commaSeparated xs) := by
  fun_induction commaSeparated xs with
  | case1 => exact List.isChain_nil
  | case2 x => exact spaced_part x
  | case3 x y rest ih => exact (ih.cons_text (by decide)).cons_part x

theorem spaced_returning (xs : List Ast) : Spaced (returning xs) := by
  fun_induction returning xs with
  | case1 => exact spaced_text _
  | case2 x => exact ((spaced_text _).cons_part x).cons_text (by decide)
  | case3 x y rest ih => exact (ih.cons_text (by decide)).cons_part x

theorem opensOperand_append (before : List Char) {text : List Char} (h : text ≠ []) :
    opensOperand (before ++ text) = opensOperand text := by
  rw [opensOperand, opensOperand, List.getLast?_append_of_ne_nil _ h]

/-- A text that ends as one that lets an operand begin. -/
theorem opening_append (s : String) {t : String}
    (h : t.toList ≠ [] ∧ opensOperand t.toList = true) :
    (s ++ t).toList ≠ [] ∧ opensOperand (s ++ t).toList = true := by
  rw [String.toList_append, opensOperand_append _ h.1]
  exact ⟨by simp [h.1], h.2⟩

theorem spaced_statements (xs : List Ast) : Spaced (statements xs) := by
  induction xs with
  | nil => exact List.isChain_nil
  | cons x rest ih => exact (Spaced.cons_text ih (by decide)).cons_part x

theorem spaced_afterCommas (xs : List Ast) : Spaced (afterCommas xs) := by
  induction xs with
  | nil => exact List.isChain_nil
  | cons x rest ih =>
    have hpart : Spaced (.part x :: afterCommas rest) := by
      cases rest with
      | nil => exact spaced_part x
      | cons => exact Spaced.cons_part x ih
    exact hpart.cons_text (by decide)

theorem spaced_varLines_append {rest : List Segment} (h : Spaced rest)
    (bindings : List (String × Ast)) : Spaced (varLines bindings ++ rest) := by
  induction bindings with
  | nil => exact h
  | cons b bindings ih =>
    have hpart := (Spaced.cons_text (t := ";\n") ih (by decide)).cons_part b.2
    exact hpart.cons_text (opening_append _ (by decide))

theorem spaced_orNull (x : Option Ast) : Spaced (orNull x) := by
  cases x with
  | none => exact spaced_text _
  | some x => exact spaced_part x

theorem spaced_catching (handler : Option (String × List Ast)) : Spaced (catching handler) := by
  cases handler with
  | none => exact List.isChain_nil
  | some handler =>
    have hbody := (spaced_returning handler.2).append_text (spaced_text "\n\x7d")
    exact hbody.cons_text (opening_append _ (by decide))

theorem spaced_finishing (handled : Bool) (cleanup : List Ast) :
    Spaced (finishing handled cleanup) := by
  unfold finishing
  split
  · exact List.isChain_nil
  · have hbody := (spaced_statements cleanup).append_text (spaced_text "\x7d")
    exact hbody.cons_text (by decide)

theorem spaced_template (a : Ast) : Spaced (template a) := by
  cases a with
  | const | quote | var | «local» | global => exact spaced_text _
  | vector | set | map =>
    exact ((spaced_commaSeparated _).append_text (spaced_text _)).cons_text (by decide)
  | ns pos decl =>
    exact (spaced_text _).append_text ((spaced_text _).append_text (spaced_text _))
  | define pos ns name init =>
    exact ((spaced_orNull init).append_text (spaced_text _)).cons_text
      (opening_append _ (by decide))
  | block pos body =>
    match body with
    | [] => exact spaced_text _
    | [only] => exact spaced_part only
    | first :: second :: rest =>
      exact ((spaced_commaSeparated _).append_text (spaced_text _)).cons_text (by decide)
  | cond pos test thenBranch elseBranch =>
    have helse := ((spaced_orNull elseBranch).append_text (spaced_text ")")).cons_text
      (t := " : ") (by decide)
    exact (((helse.cons_part thenBranch).cons_text (by decide)).cons_part test).cons_text
      (by decide)
  | bind pos bindings body =>
    have hbody := (spaced_returning body).append_text (spaced_text "\n\x7d)()")
    have hlines := spaced_varLines_append hbody bindings
    simpa [template] using hlines.cons_text (t := "(function ()\x7b\n") (by decide)
  | func pos name params rest body =>
    have hbody := (spaced_returning body).append_text (spaced_text "\n\x7d)")
    refine hbody.cons_text ?_
    cases rest with
    | none =>
      rw [restText, String.append_empty]
      exact opening_append _ (by decide)
    | some rest => exact opening_append _ (opening_append _ (by decide))
  | assign pos target value =>
    exact ((((spaced_text _).cons_part value).cons_text (by decide)).cons_part target).cons_text
      (by decide)
  | throw pos value => exact ((spaced_text _).cons_part value).cons_text (by decide)
  | guard pos body handler cleanup =>
    have hcleanup := (spaced_finishing handler.isSome cleanup).append_text
      (spaced_text "\x7d)()")
    have htext : ∀ a, (finishing handler.isSome cleanup ++ [Segment.text "\x7d)()"]).head? ≠
        some (.part a) := by
      unfold finishing
      split <;> simp
    have hhandler := (spaced_catching handler).append hcleanup htext
    have hclauses := (spaced_text "\n\x7d").append hhandler (by
      cases handler with
      | none => exact htext
      | some => simp [catching])
    have hbody := (spaced_returning body).append hclauses (by simp)
    simpa [template] using hbody.cons_text (t := "(function ()\x7btry\x7b\n") (by decide)
  | new pos ctor args =>
    have hargs := ((spaced_commaSeparated args).append_text (spaced_text "))")).cons_text
      (t := "(") (by decide)
    exact (hargs.cons_part ctor).cons_text (by decide)
  | method pos target name args =>
    have hargs := ((spaced_commaSeparated args).append_text (spaced_text ")")).cons_text
      (t := "." ++ name ++ "(") (opening_append _ (by decide))
    exact hargs.cons_part target
  | field pos target name => exact (spaced_text _).cons_part target
  | invoke pos callee args =>
    have hargs := (spaced_afterCommas args).append_text (spaced_text ")")
    have hcall := (spaced_text ".call(null").append hargs (by cases args <;> simp [afterCommas])
    exact hcall.cons_part callee

/-- Every part of a node begins where the node begins, or where an operand may begin. -/
theorem opensOperand_of_mem_offsets {before : List Char} (hbefore : opensOperand before = true)
    {segments : List Segment} (h : Spaced segments) {e : List Char × Ast}
    (he : e ∈ offsets before segments) : opensOperand e.1 = true := by
  obtain ⟨front, back, rfl, hfirst⟩ := exists_of_mem_offsets he
  rcases List.eq_nil_or_concat' front with rfl | ⟨front, s, rfl⟩
  · rw [hfirst, List.flatMap_nil, List.append_nil]
    exact hbefore
  · obtain ⟨-, -, hlast⟩ := List.isChain_append.mp h
    have hfollow := hlast s (by simp) _ rfl
    cases s with
    | part => exact hfollow.elim
    | text t =>
      rw [hfirst, List.flatMap_append, ← List.append_assoc]
      have hchars : [Segment.text t].flatMap Segment.chars = t.toList := by simp [Segment.chars]
      rw [hchars, opensOperand_append _ hfollow.1]
      exact hfollow.2

theorem opensOperand_of_mem_nodesFrom {before : List Char} (hbefore : opensOperand before = true)
    {a : Ast} {e : List Char × Ast} (he : e ∈ nodesFrom before a) : opensOperand e.1 = true :=
  nodesFrom_induct (P := fun e => opensOperand e.1 = true) hbefore
    (fun e hopens _ hf => opensOperand_of_mem_offsets hopens (spaced_template e.2) hf) e he

/-! ## When everything applies to the whole -/

/-- Behind the target of an access stands a point with a name. -/
theorem chars_of_target {a target : Ast} (h : target ∈ target? a) (hnames : Named A a) :
    ∃ name more, chars a = chars target ++ '.' :: (name ++ more) ∧ IsPath A name := by
  cases a with
  | method pos t name args =>
    obtain rfl : t = target := Option.some.inj h
    refine ⟨name.toList, '(' :: (commaSeparated args).flatMap Segment.chars ++ [')'], ?_,
      hnames name (by simp [ownNames])⟩
    simp [chars_method, called]
  | field pos t name =>
    obtain rfl : t = target := Option.some.inj h
    refine ⟨name.toList, [], ?_, hnames name (by simp [ownNames])⟩
    rw [chars_field, List.append_nil]
  | invoke pos t args =>
    obtain rfl : t = target := Option.some.inj h
    refine ⟨"call".toList,
      '(' :: (Segment.text "null" :: afterCommas args).flatMap Segment.chars ++ [')'], ?_,
      isPath_of_isAsciiPath (by decide)⟩
    simp [chars_invoke, called]
  | _ => simp [target?] at h

theorem chars_of_constructor {a ctor : Ast} (h : ctor ∈ constructor? a) :
    ∃ args, chars a = "(new ".toList ++ chars ctor ++
      '(' :: ((commaSeparated args).flatMap Segment.chars ++ "))".toList) ∧
      ∀ b ∈ args, b ∈ a.parts := by
  cases a with
  | new pos c args =>
    obtain rfl : c = ctor := Option.some.inj h
    refine ⟨args, ?_, by simp +contextual [Ast.parts]⟩
    rw [chars_eq]
    simp [template, Segment.chars]
  | _ => simp [constructor?] at h

theorem mem_parts_of_target {a target : Ast} (h : target ∈ target? a) : target ∈ a.parts := by
  cases a with
  | method | field | invoke =>
    obtain rfl := Option.some.inj h
    simp [Ast.parts]
  | _ => simp [target?] at h

theorem mem_parts_of_constructor {a ctor : Ast} (h : ctor ∈ constructor? a) : ctor ∈ a.parts := by
  cases a with
  | new =>
    obtain rfl := Option.some.inj h
    simp [Ast.parts]
  | _ => simp [constructor?] at h

theorem AppliesTo.reads {calls : Bool} {js before text : List Char}
    (h : AppliesTo A calls js before text) (rest : List Char) (hjs : js = before ++ text ++ rest) :
    Reads A calls (text ++ rest) rest := by
  obtain ⟨-, rest', hjs', hreads, -⟩ := h
  obtain rfl : rest = rest' := List.append_cancel_left (hjs.symm.trans hjs')
  exact hreads

theorem applies_of_isSound {js before after : List Char} {a : Ast}
    (hjs : js = before ++ chars a ++ after) (hopens : opensOperand before = true)
    (hnames : Everywhere (Named A) a) (hsound : Everywhere (fun b => isSound b = true) a) :
    Applies A js (before, a) := by
  obtain ⟨hname, hnameParts⟩ := (everywhere_iff _ a).mp hnames
  obtain ⟨hnode, hsoundParts⟩ := (everywhere_iff _ a).mp hsound
  obtain ⟨hpoint, hbracket⟩ := Bool.and_eq_true_iff.mp hnode
  refine ⟨fun target htarget => ?_, fun ctor hctor => ?_⟩
  · obtain ⟨name, more, hchars, hpath⟩ := chars_of_target htarget hname
    have hmem := mem_parts_of_target htarget
    have hoperand := operand_chars (hnameParts target hmem) (hsoundParts target hmem)
      (by simpa [Option.mem_def.mp htarget] using hpoint)
    refine ⟨hopens, '.' :: (name ++ more) ++ after, ?_, ?_, ?_⟩
    · simp [hjs, hchars]
    · exact hoperand.reads (by simp) (stops_cons _ A.part_dot)
    · obtain ⟨first, rest, rfl, ⟨c, cs, rfl, hc, -⟩, -, -⟩ := hpath
      simp [link, hc]
  · obtain ⟨args, hchars, hargs⟩ := chars_of_constructor hctor
    have hmem := mem_parts_of_constructor hctor
    have hadmits : Follower.bracket.admits ctor = true ∧ isCallFree ctor = true := by
      simpa [Option.mem_def.mp hctor] using hbracket
    refine ⟨by rw [opensOperand_append _ (by decide)]; decide,
      '(' :: ((commaSeparated args).flatMap Segment.chars ++ "))".toList) ++ after, ?_, ?_, ?_⟩
    · simp [hjs, hchars]
    · -- digits without a point are no operand in general, and yet one in front of a bracket
      cases hpoint : Follower.point.admits ctor with
      | true =>
        have hoperand := operand_chars (hnameParts ctor hmem) (hsoundParts ctor hmem) hpoint
        exact hoperand.reads (by simp [hadmits.2]) (stops_cons _ A.part_bracket)
      | false => exact reads_number hadmits.1 hpoint false _
    · have hinner : Balanced ((commaSeparated args).flatMap Segment.chars) := by
        refine balanced_segments (fun b hb => ?_) (openBehind_commaSeparated [] args)
        have hb' : b ∈ a.parts := hargs b (by simpa using mem_filterMap_of_part_mem hb)
        exact balanced_chars ((hnameParts b hb').imp fun _ => Named.plainNames)
      have hclosing := closing_balanced hinner (')' :: after)
      simp only [List.cons_append, List.append_assoc, link, if_true]
      change (closing _ (_ ++ ')' :: ')' :: after)).isSome = true
      rw [hclosing]
      rfl

/-- Reading never gets to the end of a node that is not admitted. -/
theorem admits_of_reads {f : Follower} {calls : Bool} {a : Ast} {more : List Char}
    (h : Reads A calls (chars a ++ f.sign :: more) (f.sign :: more)) : f.admits a = true := by
  cases hadmits : f.admits a with
  | true => rfl
  | false =>
    obtain ⟨begun, hbegun, hlinks⟩ := h
    have hlt := length_of_primary_chars hadmits hbegun
    have hle := length_of_links hlinks
    omega

/-- A constructor that is read up to its arguments calls nothing. -/
theorem isCallFree_of_reads {a : Ast} {more : List Char} (hnames : Everywhere (Named A) a)
    (hsound : Everywhere (fun b => isSound b = true) a)
    (h : Reads A false (chars a ++ '(' :: more) ('(' :: more)) : isCallFree a = true := by
  cases hfree : isCallFree a with
  | true => rfl
  | false =>
    have hpoint : Follower.point.admits a = true := by
      cases hadmits : Follower.point.admits a with
      | true => rfl
      | false =>
        obtain ⟨_, _, _, -, -, -, hfree', -⟩ := exists_numeral hadmits
        exact absurd hfree' (by simp [hfree])
    have hoperand := operand_chars hnames hsound hpoint
    rw [hfree] at hoperand
    -- reading stops at the first call, which is longer than the arguments behind the constructor
    obtain ⟨args, hreads, hle⟩ := hoperand.stops_at_call rfl ('(' :: more)
    rw [hreads.eq_of_bracket h, List.length_cons] at hle
    omega

theorem isSound_of_applies {js : List Char} {a : Ast} {before after : List Char}
    (hjs : js = before ++ chars a ++ after) (hnames : Everywhere (Named A) a)
    (h : ∀ e ∈ nodesFrom before a, Applies A js e) :
    Everywhere (fun b => isSound b = true) a := by
  induction a using Ast.induct generalizing before after with
  | step a ih =>
    -- the parts first: a constructor is an operand only if what it is made of is sound
    obtain ⟨hname, hnameParts⟩ := (everywhere_iff _ a).mp hnames
    have hparts : ∀ b ∈ a.parts, Everywhere (fun b => isSound b = true) b := by
      intro b hb
      have hoffset : b ∈ (offsets before (template a)).map Prod.snd := by
        rwa [map_snd_offsets, filterMap_template]
      obtain ⟨f, hf, rfl⟩ := List.mem_map.mp hoffset
      have hsub : ∀ e ∈ nodesFrom f.1 f.2, e ∈ nodesFrom before a := by
        intro e he
        rw [nodesFrom_eq before a]
        exact List.mem_cons_of_mem _ (List.mem_flatMap.mpr ⟨f, hf, he⟩)
      have hself : f ∈ nodesFrom f.1 f.2 := by
        rw [nodesFrom_eq]
        exact List.mem_cons_self
      obtain ⟨more, hmore⟩ := prefix_of_mem_nodesFrom (hsub f hself)
      have hpart : js = f.1 ++ chars f.2 ++ (more ++ after) := by
        rw [hjs, ← hmore, List.append_assoc]
      exact ih f.2 hb hpart (hnameParts f.2 hb) fun e he => h e (hsub e he)
    have hroot := h (before, a) (by rw [nodesFrom_eq]; exact List.mem_cons_self)
    refine (everywhere_iff _ a).mpr ⟨Bool.and_eq_true_iff.mpr ⟨?_, ?_⟩, hparts⟩
    · cases htarget : target? a with
      | none => rfl
      | some target =>
        obtain ⟨name, more, hchars, -⟩ := chars_of_target htarget hname
        have hreads := (hroot.1 target htarget).reads
          ('.' :: (name ++ more ++ after)) (by simp [hjs, hchars])
        exact admits_of_reads (f := .point) hreads
    · cases hctor : constructor? a with
      | none => rfl
      | some ctor =>
        obtain ⟨args, hchars, -⟩ := chars_of_constructor hctor
        have hreads := (hroot.2 ctor hctor).reads
          ('(' :: ((commaSeparated args).flatMap Segment.chars ++ "))".toList ++ after))
          (by simp [hjs, hchars])
        have hmem := mem_parts_of_constructor hctor
        have hfree := isCallFree_of_reads (hnameParts ctor hmem) (hparts ctor hmem) hreads
        exact Bool.and_eq_true_iff.mpr ⟨admits_of_reads (f := .bracket) hreads, hfree⟩

/-- Every access, every call and every construction of a script applies to the whole text of its
target, callee or constructor exactly if no target is a number that would take the point and no
constructor is a signed number or calls something. -/
theorem applies_iff_isSound {a : Ast} (hnames : Everywhere (Named A) a) (sourceMap : Bool) :
    (∀ e ∈ nodes a, Applies A (emit sourceMap a).js.toList e) ↔
      Everywhere (fun b => isSound b = true) a := by
  rcases eq_ns_or a with ⟨pos, decl, rfl⟩ | h
  · rw [Everywhere, nodes, nodesFrom_of_parts_eq_nil _ rfl]
    simp [Applies, isSound, target?, constructor?]
  · have hjs : (emit sourceMap a).js.toList = [] ++ chars a ++ [';'] := by
      have htop : topPieces a = pieces a ++ [.text ";"] := by
        cases a with
        | ns => simp [Ast.nsDecl?] at h
        | _ => rfl
      change (scriptText (topPieces a)).toList = _
      rw [htop, toList_scriptText]
      rfl
    refine ⟨isSound_of_applies hjs hnames, fun hsound e he => ?_⟩
    obtain ⟨more, hmore⟩ := prefix_of_mem_nodesFrom he
    have hnode : (emit sourceMap a).js.toList = e.1 ++ chars e.2 ++ (more ++ [';']) := by
      rw [hjs, ← hmore, List.append_assoc]
    exact applies_of_isSound hnode (opensOperand_of_mem_nodesFrom rfl he)
      (hnames.of_mem_nodes he) (hsound.of_mem_nodes he)

/-- The number of `(.toFixed 1)` takes the point of the access, and the name behind it is left
over: `1.toFixed();` is no expression. -/
theorem method_of_number_not_applies :
    ¬∀ (ns : String) (form : Form) (env : Analysis.Env) (a : Ast) (env' : Analysis.Env),
      Analysis.analyze ns form env = .ok a env' →
        ∀ e ∈ nodes a, Applies .ascii (emit false a).js.toList e := by
  intro h
  let one : Ast := .const .start (.atom .start (.int 1))
  let form : Form :=
    .list .start [.symbol ".toFixed" .start, .atom .start (.int 1)]
  have hrun : Analysis.analyze Analysis.userNs form .initial =
      .ok (.method .start one "toFixed" []) .initial := rfl
  have hroot := h _ _ _ _ _ hrun ([], .method .start one "toFixed" [])
    (by rw [nodes, nodesFrom_eq]; exact List.mem_cons_self)
  obtain ⟨begun, hbegun, -⟩ := (hroot.1 one rfl).reads ".toFixed();".toList
    (by decide +kernel)
  have hnone : primary .ascii (chars one ++ ".toFixed();".toList) = none := by decide +kernel
  rw [hnone] at hbegun
  contradiction

/-- `(new (.-Foo js/lib) (.toFixed 1.5))`: an access behind `new`, and a number with a point of its
own in front of an access. -/
theorem construction_applies :
    let number : Ast := .const .start (.atom .start (.float (.finite false 6755399441055744 (-52))))
    let a : Ast := .new .start (.field .start (.global .start "lib") "Foo")
      [.method .start number "toFixed" []]
    Everywhere (Named .ascii) a ∧ ∀ e ∈ nodes a, Applies .ascii (emit false a).js.toList e := by
  intro number a
  have heverywhere : ∀ {P : Ast → Prop}, (∀ b ∈ [a, .field .start (.global .start "lib") "Foo",
      .global .start "lib", .method .start number "toFixed" [], number], P b) →
      Everywhere P a := by
    intro P hP
    have hleaf : ∀ b : Ast, b.parts = [] → P b → Everywhere P b :=
      fun b hb hPb => (everywhere_iff P b).mpr ⟨hPb, by simp [hb]⟩
    simp only [List.forall_mem_cons] at hP
    obtain ⟨hroot, hfield, hlib, hmethod, hnumber, -⟩ := hP
    have hctor := (everywhere_iff P (.field .start (.global .start "lib") "Foo")).mpr
      ⟨hfield, by simpa [Ast.parts] using hleaf _ rfl hlib⟩
    have harg := (everywhere_iff P (.method .start number "toFixed" [])).mpr
      ⟨hmethod, by simpa [Ast.parts] using hleaf _ rfl hnumber⟩
    exact (everywhere_iff P a).mpr ⟨hroot, by simpa [a, Ast.parts] using ⟨hctor, harg⟩⟩
  have hnamed : Everywhere (Named .ascii) a := by
    refine heverywhere fun b hb name hname => isPath_of_isAsciiPath ?_
    revert b name
    decide +kernel
  have hsound : Everywhere (fun b => isSound b = true) a := heverywhere (by decide +kernel)
  exact ⟨hnamed, (applies_iff_isSound hnamed false).mpr hsound⟩

end LiveLisp.Script
