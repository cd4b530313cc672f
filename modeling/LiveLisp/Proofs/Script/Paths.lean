import LiveLisp.Analysis.Stack
import LiveLisp.Proofs.Form.Tree
import LiveLisp.Proofs.Script.Emission
import LiveLisp.Proofs.Script.Requires
import Mathlib.Data.List.Basic
import Mathlib.Data.List.TakeWhile
/-!
# Namespace paths in a script

A definition is reached by the path of its namespace, and so are the helpers of the base library.
Such a path means what it says as long as its first identifier is not bound around it.  Locals are
written under their own identifiers, so that this is not always the case: `paths_global_iff` says
exactly when it is.
-/

namespace LiveLisp

theorem Text.splitOn_eq_cons (mark : Char) (text : List Char) :
    ∃ rest, text.splitOn mark = text.takeWhile (· ≠ mark) :: rest := by
  induction text with
  | nil => exact ⟨[], rfl⟩
  | cons c text ih =>
    obtain ⟨rest, hrest⟩ := ih
    by_cases hc : c = mark
    · simp [List.splitOn_cons_eq_if_modifyHead, hc]
    · simp [List.splitOn_cons_eq_if_modifyHead, hc, hrest]

theorem Munge.dot_not_mem_mungeChars {name : List Char} (h : '.' ∉ name) :
    '.' ∉ mungeChars name := by
  intro hdot
  rcases mem_mungeChars hdot with hmark | ⟨c, hc, hdot⟩
  · exact absurd hmark (by decide)
  · rcases mungeChar_cases c with ⟨-, hspelled⟩ | ⟨hself, -⟩
    · exact absurd (hspelled _ hdot) (by decide)
    · rw [hself, List.mem_singleton] at hdot
      exact h (hdot ▸ hc)

namespace Script

open Analysis (Ast)
open Munge (definitionPath munge mungeChars mungePath)

/-! ## The first identifier of a path -/

def rootOf (path : String) : String := String.ofList (path.toList.takeWhile (· ≠ '.'))

/-- The path of a definition begins with the first segment of its namespace. -/
theorem rootOf_definitionPath (ns name : String) :
    rootOf (definitionPath ns name) = munge (rootOf ns) := by
  obtain ⟨rest, hrest⟩ := Text.splitOn_eq_cons '.' ns.toList
  have hroot : ∀ c ∈ mungeChars (ns.toList.takeWhile (· ≠ '.')), c ≠ '.' := by
    have hfree : '.' ∉ ns.toList.takeWhile (· ≠ '.') := by
      intro hdot
      simpa using List.mem_takeWhile_imp hdot
    rintro c hc rfl
    exact Munge.dot_not_mem_mungeChars hfree hc
  -- behind the first segment stands a point, be it of the namespace or before the name
  obtain ⟨tail, htail⟩ : ∃ tail, (definitionPath ns name).toList =
      mungeChars (ns.toList.takeWhile (· ≠ '.')) ++ '.' :: tail := by
    rw [definitionPath, mungePath, hrest, List.map_cons]
    cases rest with
    | nil => exact ⟨(munge name).toList, by simp⟩
    | cons second rest =>
      let segments := ['.'].intercalate ((second :: rest).map mungeChars)
      refine ⟨segments ++ '.' :: (munge name).toList, ?_⟩
      simp [segments, List.intercalate_cons_cons]
  rw [rootOf, htail, List.takeWhile_append_of_pos (by simpa using hroot)]
  simp [munge, rootOf]

theorem rootOf_restPaths :
    rootOf "cljs.core.array_seq" = "cljs" ∧ rootOf "Array.prototype.slice.call" = "Array" := by
  decide

/-! ## Scripts cut at their paths -/

/-- A stretch of the own text of an expression, or one of its parts.  Paths and parts stand inside
the identifiers `names` that the expression binds. -/
inductive Cut where
  | text (text : String)
  | path (names : List String) (path : String)
  | part (names : List String) (ast : Ast)

namespace Cut

def chars : Cut → List Char
  | .text t => t.toList
  | .path _ p => p.toList
  | .part _ a => Script.chars a

def part? : Cut → Option Ast
  | .text _ | .path .. => none
  | .part _ a => some a

end Cut

/-- Segments without paths, inside the identifiers `names`. -/
def inside (names : List String) (segments : List Segment) : List Cut :=
  segments.map fun
    | .text t => .text t
    | .part a => .part names a

/-- The arguments of a call that builds a symbol or a keyword. -/
def nameArguments (s : Symbol) : String :=
  match s.ns with
  | some ns => "(" ++ stringLiteral ns ++ ", " ++ stringLiteral s.name ++ ")"
  | none => "(" ++ stringLiteral s.name ++ ")"

mutual

/-- The expression that builds a form as data, cut at its paths. -/
def dataCuts : Form → List Cut
  | .atom _ (.keyword k) => [.path [] "cljs.core.keyword", .text (nameArguments k)]
  | .atom _ (.symbol s) => [.path [] "cljs.core.symbol", .text (nameArguments s)]
  | .atom _ a => [.text (atomLiteral a)]
  | .list _ [] => [.path [] "cljs.core.List.EMPTY"]
  | .list _ (x :: xs) =>
    .path [] "cljs.core.list" :: .text "(" :: itemCuts (x :: xs) ++ [.text ")"]
  | .vector _ xs =>
    .path [] "cljs.core.PersistentVector.fromArray" :: .text "([" :: itemCuts xs ++
      [.text "], true)"]
  | .set _ xs =>
    .path [] "cljs.core.PersistentHashSet.fromArray" :: .text "([" :: itemCuts xs ++
      [.text "], true)"]
  | .map _ es =>
    .path [] "cljs.core.PersistentArrayMap.fromArray" :: .text "([" :: entryCuts es ++
      [.text "], true, false)"]

def itemCuts : List Form → List Cut
  | [] => []
  | [x] => dataCuts x
  | x :: y :: rest => dataCuts x ++ .text ", " :: itemCuts (y :: rest)

def entryCuts : List (Form × Form) → List Cut
  | [] => []
  | [(k, v)] => dataCuts k ++ .text ", " :: dataCuts v
  | (k, v) :: e :: rest =>
    dataCuts k ++ .text ", " :: dataCuts v ++ .text ", " :: entryCuts (e :: rest)

end

/-- The text that binds the rest parameter of a function, cut at its paths. -/
def restCuts (names : List String) (rest : Option String) (params : List String) : List Cut :=
  match rest with
  | some name =>
    [.text ("var " ++ name ++ " = "), .path names "cljs.core.array_seq", .text "(",
      .path names "Array.prototype.slice.call",
      .text ("(arguments, " ++ toString params.length ++ "));\n")]
  | none => []

/-- The identifiers that a function binds. -/
def functionNames (name : Option String) (params : List String) (rest : Option String) :
    List String :=
  name.toList ++ params ++ rest.toList

/-- The text of an expression, cut at its paths and parts.  A variable is one of the whole function
that declares it, also where its value stands. -/
def cuts : Ast → List Cut
  | .const _ value => dataCuts value
  | .quote _ form => dataCuts form
  | .var _ ns name => [.path [] (definitionPath ns name)]
  | .vector _ items =>
    .path [] "cljs.core.PersistentVector.fromArray" :: .text "([" ::
      inside [] (commaSeparated items ++ [.text "], true)"])
  | .set _ items =>
    .path [] "cljs.core.PersistentHashSet.fromArray" :: .text "([" ::
      inside [] (commaSeparated items ++ [.text "], true)"])
  | .map pos entries =>
    .path [] "cljs.core.PersistentArrayMap.fromArray" :: .text "([" ::
      inside [] (commaSeparated (Ast.map pos entries).parts ++ [.text "], true, false)"])
  | .define _ ns name init =>
    .text "(" :: .path [] (definitionPath ns name) :: .text " = " ::
      inside [] (orNull init ++ [.text ")"])
  | .cond _ test thenBranch elseBranch =>
    .text "(" :: .path [] "cljs.core.truth_" :: .text "(" ::
      inside [] ([.part test, .text ") ? ", .part thenBranch, .text " : "] ++
        orNull elseBranch ++ [.text ")"])
  | .bind pos bindings body =>
    inside (bindings.map Prod.fst) (template (.bind pos bindings body))
  | .func _ name params rest body =>
    let names := functionNames name params rest
    .text ("(function " ++ name.getD "" ++ "(" ++ ", ".intercalate params ++ ")\x7b\n") ::
      restCuts names rest params ++ inside names (returning body ++ [.text "\n\x7d)"])
  | .guard _ body handler cleanup =>
    inside [] (.text "(function ()\x7btry\x7b\n" :: returning body ++ [.text "\n\x7d"]) ++
      inside (handler.map Prod.fst).toList (catching handler) ++
      inside [] (finishing handler.isSome cleanup ++ [.text "\x7d)()"])
  | a => inside [] (template a)

/-! ## The text of the cuts -/

@[simp] theorem flatMap_inside (names : List String) (segments : List Segment) :
    (inside names segments).flatMap Cut.chars = segments.flatMap Segment.chars := by
  induction segments with
  | nil => rfl
  | cons s segments ih =>
    rw [inside, List.map_cons, List.flatMap_cons, List.flatMap_cons, ← ih]
    cases s <;> rfl

theorem chars_itemCuts {xs : List Form}
    (h : ∀ x ∈ xs, (dataCuts x).flatMap Cut.chars = (datum x).toList) :
    (itemCuts xs).flatMap Cut.chars = (dataItems xs).toList := by
  induction xs with
  | nil => rfl
  | cons x xs ih =>
    have hx := h x (by simp)
    have hxs := ih fun y hy => h y (by simp [hy])
    cases xs with
    | nil => exact hx
    | cons y rest => simp [itemCuts, dataItems, hx, hxs, Cut.chars]

theorem chars_entryCuts {entries : List (Form × Form)}
    (h : ∀ x ∈ entries.flatMap (fun e => [e.1, e.2]),
      (dataCuts x).flatMap Cut.chars = (datum x).toList) :
    (entryCuts entries).flatMap Cut.chars = (dataEntries entries).toList := by
  induction entries with
  | nil => rfl
  | cons e entries ih =>
    obtain ⟨k, v⟩ := e
    have hk := h k (by simp)
    have hv := h v (by simp)
    have hrest := ih fun y hy => h y (List.mem_append_right [k, v] hy)
    cases entries with
    | nil => simp [entryCuts, dataEntries, hk, hv, Cut.chars]
    | cons e rest => simp [entryCuts, dataEntries, hk, hv, hrest, Cut.chars]

theorem flatMap_called {path opening front : String} (hfront : front = path ++ opening)
    {middle : List Cut} {text : String} (h : middle.flatMap Cut.chars = text.toList)
    (names : List String) (closing : String) :
    (Cut.path names path :: Cut.text opening :: middle ++ [Cut.text closing]).flatMap Cut.chars =
      (front ++ text ++ closing).toList := by
  simp only [List.flatMap_cons, List.flatMap_append, List.cons_append, List.flatMap_nil, h,
    Cut.chars, hfront, String.toList_append, List.append_assoc, List.append_nil]

theorem chars_nameCuts (path : String) (s : Symbol) :
    [Cut.path [] path, Cut.text (nameArguments s)].flatMap Cut.chars =
      (nameCall path s).toList := by
  unfold nameCall nameArguments
  cases s.ns <;> simp [Cut.chars]

theorem chars_dataCuts (f : Form) : (dataCuts f).flatMap Cut.chars = (datum f).toList := by
  induction f using Form.induct with
  | step f ih =>
    cases f with
    | atom pos a =>
      cases a with
      | keyword k => exact chars_nameCuts "cljs.core.keyword" k
      | symbol s => exact chars_nameCuts "cljs.core.symbol" s
      | _ => exact List.append_nil _
    | list pos items =>
      cases items with
      | nil => exact List.append_nil _
      | cons x xs =>
        change _ = ("cljs.core.list(" ++ dataItems (x :: xs) ++ ")").toList
        exact flatMap_called (by decide) (chars_itemCuts ih) [] ")"
    | vector pos items =>
      change _ = ("cljs.core.PersistentVector.fromArray([" ++ dataItems items ++
        "], true)").toList
      exact flatMap_called (by decide) (chars_itemCuts ih) [] "], true)"
    | set pos items =>
      change _ = ("cljs.core.PersistentHashSet.fromArray([" ++ dataItems items ++
        "], true)").toList
      exact flatMap_called (by decide) (chars_itemCuts ih) [] "], true)"
    | map pos entries =>
      change _ = ("cljs.core.PersistentArrayMap.fromArray([" ++ dataEntries entries ++
        "], true, false)").toList
      exact flatMap_called (by decide) (chars_entryCuts ih) [] "], true, false)"

theorem chars_restCuts (names : List String) (rest : Option String) (params : List String) :
    (restCuts names rest params).flatMap Cut.chars = (restText rest params).toList := by
  cases rest with
  | none => rfl
  | some name =>
    have hcall : " = cljs.core.array_seq(Array.prototype.slice.call(arguments, " =
        " = " ++ ("cljs.core.array_seq" ++ ("(" ++ ("Array.prototype.slice.call" ++
          "(arguments, "))) := by decide
    simp only [restCuts, restText, hcall, List.flatMap_cons, List.flatMap_nil, Cut.chars,
      String.toList_append, List.append_assoc, List.append_nil]

theorem chars_built {path opening front : String} (hfront : front = path ++ opening)
    (names : List String) (segments : List Segment) :
    (Cut.path names path :: Cut.text opening :: inside names segments).flatMap Cut.chars =
      (Segment.text front :: segments).flatMap Segment.chars := by
  simp only [List.flatMap_cons, flatMap_inside, Cut.chars, Segment.chars, hfront,
    String.toList_append, List.append_assoc]

/-- The cuts are the text of the expression. -/
theorem chars_cuts (a : Ast) : (cuts a).flatMap Cut.chars = chars a := by
  rw [chars_eq]
  cases a with
  | const pos value => exact (chars_dataCuts value).trans (List.append_nil _).symm
  | quote pos form => exact (chars_dataCuts form).trans (List.append_nil _).symm
  | var pos ns name => rfl
  | vector pos items | set pos items | map pos entries =>
    rw [cuts, template]
    exact chars_built (by decide) [] _
  | define pos ns name init =>
    simp only [cuts, template, List.flatMap_cons, flatMap_inside, List.cons_append, Cut.chars,
      Segment.chars, String.toList_append, List.append_assoc]
  | cond pos test thenBranch elseBranch =>
    have hfront : "(cljs.core.truth_(" = "(" ++ ("cljs.core.truth_" ++ "(") := by decide
    simp only [cuts, template, hfront, List.flatMap_cons, flatMap_inside, List.cons_append,
      Cut.chars, Segment.chars, String.toList_append, List.append_assoc]
  | bind pos bindings body => exact flatMap_inside ..
  | func pos name params rest body =>
    simp only [cuts, template, List.flatMap_cons, List.flatMap_append, flatMap_inside,
      chars_restCuts, List.cons_append, Cut.chars, Segment.chars, String.toList_append,
      List.append_assoc]
  | guard pos body handler cleanup =>
    simp only [cuts, template, List.flatMap_append, flatMap_inside, List.append_assoc]
  | _ => exact flatMap_inside ..

/-! ## Parts -/

@[simp] theorem filterMap_cut_text (t : String) (cuts : List Cut) :
    (Cut.text t :: cuts).filterMap Cut.part? = cuts.filterMap Cut.part? :=
  rfl

@[simp] theorem filterMap_cut_path (names : List String) (p : String) (cuts : List Cut) :
    (Cut.path names p :: cuts).filterMap Cut.part? = cuts.filterMap Cut.part? :=
  rfl

@[simp] theorem filterMap_cut_part (names : List String) (a : Ast) (cuts : List Cut) :
    (Cut.part names a :: cuts).filterMap Cut.part? = a :: cuts.filterMap Cut.part? :=
  rfl

@[simp] theorem filterMap_inside (names : List String) (segments : List Segment) :
    (inside names segments).filterMap Cut.part? = segments.filterMap Segment.part? := by
  induction segments with
  | nil => rfl
  | cons s segments ih =>
    cases s with
    | text t => exact ih
    | part a => exact congrArg (a :: ·) ih

/-- Data has no parts, and reaches nothing but the base library. -/
def Cut.IsData : Cut → Prop
  | .text _ => True
  | .path names p => names = [] ∧ rootOf p = "cljs"
  | .part .. => False

theorem isData_itemCuts {xs : List Form} (h : ∀ x ∈ xs, ∀ c ∈ dataCuts x, c.IsData) :
    ∀ c ∈ itemCuts xs, c.IsData := by
  induction xs with
  | nil => simp [itemCuts]
  | cons x xs ih =>
    have hx := h x (by simp)
    have hxs := ih fun y hy => h y (by simp [hy])
    cases xs with
    | nil => exact hx
    | cons y rest =>
      rw [itemCuts, List.forall_mem_append, List.forall_mem_cons]
      exact ⟨hx, trivial, hxs⟩

theorem isData_entryCuts {entries : List (Form × Form)}
    (h : ∀ x ∈ entries.flatMap (fun e => [e.1, e.2]), ∀ c ∈ dataCuts x, c.IsData) :
    ∀ c ∈ entryCuts entries, c.IsData := by
  induction entries with
  | nil => simp [entryCuts]
  | cons e entries ih =>
    obtain ⟨k, v⟩ := e
    have hk := h k (by simp)
    have hv := h v (by simp)
    have hrest := ih fun y hy => h y (List.mem_append_right [k, v] hy)
    cases entries with
    | nil =>
      rw [entryCuts, List.forall_mem_append, List.forall_mem_cons]
      exact ⟨hk, trivial, hv⟩
    | cons e rest =>
      simp only [entryCuts, List.forall_mem_append, List.forall_mem_cons]
      exact ⟨⟨hk, trivial, hv⟩, trivial, hrest⟩

theorem isData_called {path : String} (hpath : rootOf path = "cljs") {middle : List Cut}
    (h : ∀ c ∈ middle, c.IsData) (opening closing : String) :
    ∀ c ∈ Cut.path [] path :: Cut.text opening :: middle ++ [Cut.text closing], c.IsData := by
  rw [List.forall_mem_append, List.forall_mem_cons, List.forall_mem_cons, List.forall_mem_singleton]
  exact ⟨⟨⟨rfl, hpath⟩, trivial, h⟩, trivial⟩

theorem isData_dataCuts (f : Form) : ∀ c ∈ dataCuts f, c.IsData := by
  induction f using Form.induct with
  | step f ih =>
    cases f with
    | atom pos a =>
      have hname : ∀ path text, rootOf path = "cljs" →
          ∀ c ∈ [Cut.path [] path, Cut.text text], c.IsData := by
        intro path text hpath
        rw [List.forall_mem_cons, List.forall_mem_singleton]
        exact ⟨⟨rfl, hpath⟩, trivial⟩
      cases a with
      | keyword k => exact hname "cljs.core.keyword" _ (by decide)
      | symbol s => exact hname "cljs.core.symbol" _ (by decide)
      | _ => exact List.forall_mem_singleton.mpr trivial
    | list pos items =>
      cases items with
      | nil =>
        have hroot : rootOf "cljs.core.List.EMPTY" = "cljs" := by decide
        exact List.forall_mem_singleton.mpr ⟨rfl, hroot⟩
      | cons x xs => exact isData_called (by decide) (isData_itemCuts ih) "(" ")"
    | vector pos items =>
      exact isData_called (by decide) (isData_itemCuts ih) "([" "], true)"
    | set pos items => exact isData_called (by decide) (isData_itemCuts ih) "([" "], true)"
    | map pos entries =>
      exact isData_called (by decide) (isData_entryCuts ih) "([" "], true, false)"

theorem part?_of_mem_dataCuts (f : Form) : ∀ c ∈ dataCuts f, c.part? = none := by
  intro c hc
  have hdata := isData_dataCuts f c hc
  cases c with
  | text | path => rfl
  | part => contradiction

/-- Every part of the expression is there, once and in order. -/
theorem filterMap_cuts (a : Ast) : (cuts a).filterMap Cut.part? = a.parts := by
  rw [← filterMap_template]
  have hrest : ∀ names rest params, (restCuts names rest params).filterMap Cut.part? = [] := by
    intro names rest params
    cases rest <;> rfl
  cases a with
  | const pos value => exact List.filterMap_eq_nil_iff.mpr (part?_of_mem_dataCuts value)
  | quote pos form => exact List.filterMap_eq_nil_iff.mpr (part?_of_mem_dataCuts form)
  | var => rfl
  | vector | set | map | define | cond =>
    simp only [cuts, template, filterMap_cut_text, filterMap_cut_path, filterMap_inside,
      List.cons_append, filterMap_text]
  | func pos name params rest body =>
    simp only [cuts, template, filterMap_cut_text, List.filterMap_append, hrest, filterMap_inside,
      List.cons_append, filterMap_text, List.nil_append]
  | guard pos body handler cleanup =>
    simp only [cuts, template, List.filterMap_append, filterMap_inside, List.append_assoc]
  | _ => exact filterMap_inside ..

theorem mem_parts_of_mem_cuts {a b : Ast} {names : List String} (h : .part names b ∈ cuts a) :
    b ∈ a.parts := by
  rw [← filterMap_cuts]
  exact List.mem_filterMap.mpr ⟨.part names b, h, rfl⟩

/-! ## Stretches of a script -/

/-- A stretch of a script: plain text, or a namespace path with the identifiers bound around it. -/
inductive Stretch where
  | text (text : String)
  | path (bound : List String) (path : String)
  deriving DecidableEq, Repr

namespace Stretch

def chars : Stretch → List Char
  | .text t => t.toList
  | .path _ p => p.toList

end Stretch

/-- The stretches of an expression that stands inside the identifiers `bound`. -/
def stretchesIn (bound : List String) (a : Ast) : List Stretch :=
  (cuts a).attach.flatMap fun
    | ⟨.text t, _⟩ => [.text t]
    | ⟨.path names p, _⟩ => [.path (names ++ bound) p]
    | ⟨.part names b, h⟩ =>
      have := Ast.sizeOf_lt_of_mem_parts (mem_parts_of_mem_cuts h)
      stretchesIn (names ++ bound) b
termination_by sizeOf a

def Cut.stretchesIn (bound : List String) : Cut → List Stretch
  | .text t => [.text t]
  | .path names p => [.path (names ++ bound) p]
  | .part names b => Script.stretchesIn (names ++ bound) b

theorem stretchesIn_eq (bound : List String) (a : Ast) :
    stretchesIn bound a = (cuts a).flatMap (Cut.stretchesIn bound) := by
  rw [stretchesIn, List.flatMap_subtype (g := Cut.stretchesIn bound), List.unattach_attach]
  intro c h
  cases c <;> rfl

/-- The stretches are the whole text. -/
theorem chars_stretchesIn (bound : List String) (a : Ast) :
    (stretchesIn bound a).flatMap Stretch.chars = chars a := by
  induction a using Ast.induct generalizing bound with
  | step a ih =>
    rw [stretchesIn_eq, List.flatMap_assoc, ← chars_cuts]
    apply List.flatMap_congr
    intro c hc
    cases c with
    | text t => exact List.append_nil _
    | path names p => exact List.append_nil _
    | part names b => exact ih b (mem_parts_of_mem_cuts hc) (names ++ bound)

/-! ## Identifiers that paths begin with -/

/-- Whether data is built by the base library. -/
def isBuilt : Form → Bool
  | .atom _ (.keyword _) | .atom _ (.symbol _) => true
  | .atom .. => false
  | .list .. | .vector .. | .set .. | .map .. => true

/-- The identifiers that the paths in the own text of an expression begin with. -/
def ownRoots : Ast → List String
  | .const _ form | .quote _ form => if isBuilt form then ["cljs"] else []
  | .var _ ns _ | .define _ ns _ _ => [munge (rootOf ns)]
  | .vector .. | .set .. | .map .. | .cond .. => ["cljs"]
  | .func _ _ _ (some _) _ => ["cljs", "Array"]
  | _ => []

/-- No path in the script of an expression begins with the identifier. -/
def Spares (x : String) : Ast → Prop := Everywhere fun a => x ∉ ownRoots a

/-- The identifiers that an expression binds begin no path where they are bound. -/
def KeepsPaths : Ast → Prop
  | .bind _ bindings body =>
    ∀ x ∈ bindings.map Prod.fst, ∀ b ∈ bindings.map Prod.snd ++ body, Spares x b
  | .func _ name params rest body =>
    let names := functionNames name params rest
    (rest.isSome = true → "cljs" ∉ names ∧ "Array" ∉ names) ∧ ∀ x ∈ names, ∀ b ∈ body, Spares x b
  | .guard _ _ (some (x, handler)) _ => ∀ b ∈ handler, Spares x b
  | _ => True

namespace Cut

def root? : Cut → Option String
  | .path _ p => some (rootOf p)
  | .text _ | .part .. => none

/-- No path of the cut begins with the identifier. -/
def Spares (x : String) : Cut → Prop
  | .text _ => True
  | .path _ p => rootOf p ≠ x
  | .part _ b => Script.Spares x b

/-- What the expression binds begins no path of the cut. -/
def Keeps : Cut → Prop
  | .text _ => True
  | .path names p => rootOf p ∉ names
  | .part names b => ∀ x ∈ names, Script.Spares x b

end Cut

theorem filterMap_root?_inside (names : List String) (segments : List Segment) :
    (inside names segments).filterMap Cut.root? = [] := by
  induction segments with
  | nil => rfl
  | cons s segments ih => cases s <;> exact ih

theorem filterMap_root?_path (names : List String) (p : String) (cuts : List Cut) :
    (Cut.path names p :: cuts).filterMap Cut.root? = rootOf p :: cuts.filterMap Cut.root? :=
  rfl

theorem filterMap_root?_text (t : String) (cuts : List Cut) :
    (Cut.text t :: cuts).filterMap Cut.root? = cuts.filterMap Cut.root? :=
  rfl

theorem filterMap_root?_part (names : List String) (a : Ast) (cuts : List Cut) :
    (Cut.part names a :: cuts).filterMap Cut.root? = cuts.filterMap Cut.root? :=
  rfl

theorem mem_roots_dataCuts {x : String} (f : Form) :
    x ∈ (dataCuts f).filterMap Cut.root? ↔ x ∈ if isBuilt f then ["cljs"] else [] := by
  by_cases hbuilt : isBuilt f = true
  · rw [if_pos hbuilt, List.mem_singleton, List.mem_filterMap]
    constructor
    · rintro ⟨c, hc, hroot⟩
      have hdata := isData_dataCuts f c hc
      cases c with
      | path names p => exact (Option.some.inj hroot).symm.trans hdata.2
      | text | part => contradiction
    · rintro rfl
      obtain ⟨p, hp⟩ : ∃ p, Cut.path [] p ∈ dataCuts f := by
        cases f with
        | atom pos a =>
          cases a with
          | keyword | symbol => exact ⟨_, List.mem_cons_self⟩
          | _ => contradiction
        | list pos items => cases items <;> exact ⟨_, List.mem_cons_self⟩
        | vector | set | map => exact ⟨_, List.mem_cons_self⟩
      exact ⟨_, hp, congrArg some (isData_dataCuts f _ hp).2⟩
  · rw [if_neg hbuilt]
    cases f with
    | atom pos a =>
      cases a with
      | keyword | symbol => exact absurd rfl hbuilt
      | _ => exact Iff.rfl
    | list | vector | set | map => exact absurd rfl hbuilt

theorem mem_roots_cuts {x : String} (a : Ast) :
    x ∈ (cuts a).filterMap Cut.root? ↔ x ∈ ownRoots a := by
  have hplain : ∀ names segments, x ∈ (inside names segments).filterMap Cut.root? ↔ x ∈ [] := by
    intro names segments
    rw [filterMap_root?_inside]
  have hbuilt : ∀ {p : String}, rootOf p = "cljs" → ∀ t segments,
      x ∈ (Cut.path [] p :: Cut.text t :: inside [] segments).filterMap Cut.root? ↔
        x ∈ ["cljs"] := by
    intro p hp t segments
    rw [filterMap_root?_path, filterMap_root?_text, filterMap_root?_inside, hp]
  cases a with
  | const pos value => exact mem_roots_dataCuts value
  | quote pos form => exact mem_roots_dataCuts form
  | var pos ns name =>
    rw [cuts, filterMap_root?_path, rootOf_definitionPath]
    rfl
  | vector | set | map | cond => exact hbuilt (by decide) _ _
  | define pos ns name init =>
    rw [cuts, filterMap_root?_text, filterMap_root?_path, filterMap_root?_text,
      filterMap_root?_inside, rootOf_definitionPath]
    rfl
  | func pos name params rest body =>
    rw [cuts, List.cons_append, filterMap_root?_text, List.filterMap_append,
      filterMap_root?_inside, List.append_nil]
    cases rest with
    | none => exact Iff.rfl
    | some rest =>
      simp only [restCuts, filterMap_root?_text, filterMap_root?_path, rootOf_restPaths]
      rfl
  | guard pos body handler cleanup =>
    rw [cuts, List.filterMap_append, List.filterMap_append, filterMap_root?_inside,
      filterMap_root?_inside, filterMap_root?_inside]
    rfl
  | _ => exact hplain _ _

theorem forall_spares_iff (x : String) (cuts : List Cut) :
    (∀ c ∈ cuts, c.Spares x) ↔
      x ∉ cuts.filterMap Cut.root? ∧ ∀ b ∈ cuts.filterMap Cut.part?, Spares x b := by
  induction cuts with
  | nil => simp
  | cons c cuts ih =>
    rw [List.forall_mem_cons, ih]
    cases c with
    | text t =>
      rw [filterMap_root?_text, filterMap_cut_text]
      exact and_iff_right trivial
    | path names p =>
      rw [filterMap_root?_path, filterMap_cut_path, List.mem_cons, not_or, and_assoc]
      exact and_congr_left' ne_comm
    | part names b =>
      rw [filterMap_root?_part, filterMap_cut_part, List.forall_mem_cons]
      exact and_left_comm

theorem spares_cuts_iff (x : String) (a : Ast) : (∀ c ∈ cuts a, c.Spares x) ↔ Spares x a := by
  rw [forall_spares_iff, mem_roots_cuts, filterMap_cuts]
  exact (everywhere_iff (fun a => x ∉ ownRoots a) a).symm

theorem keeps_inside_iff (names : List String) (segments : List Segment) :
    (∀ c ∈ inside names segments, c.Keeps) ↔
      ∀ b ∈ segments.filterMap Segment.part?, ∀ x ∈ names, Spares x b := by
  induction segments with
  | nil => simp [inside]
  | cons s segments ih =>
    rw [inside, List.map_cons, List.forall_mem_cons]
    cases s with
    | text t =>
      rw [filterMap_text, ← ih]
      exact and_iff_right trivial
    | part a =>
      rw [filterMap_part, List.forall_mem_cons, ← ih]
      rfl

theorem keeps_restCuts_iff (names : List String) (rest : Option String) (params : List String) :
    (∀ c ∈ restCuts names rest params, c.Keeps) ↔
      (rest.isSome = true → "cljs" ∉ names ∧ "Array" ∉ names) := by
  cases rest with
  | none => simp [restCuts]
  | some name => simp [restCuts, Cut.Keeps, rootOf_restPaths]

theorem keeps_cuts_iff (a : Ast) : (∀ c ∈ cuts a, c.Keeps) ↔ KeepsPaths a := by
  have hplain : ∀ segments, ∀ c ∈ inside [] segments, c.Keeps := by
    intro segments
    rw [keeps_inside_iff]
    simp
  have hpath : ∀ p, ∀ {cuts : List Cut}, (∀ c ∈ cuts, c.Keeps) →
      ∀ c ∈ Cut.path [] p :: cuts, c.Keeps :=
    fun p cuts h => List.forall_mem_cons.mpr ⟨List.not_mem_nil, h⟩
  have htext : ∀ t, ∀ {cuts : List Cut}, (∀ c ∈ cuts, c.Keeps) →
      ∀ c ∈ Cut.text t :: cuts, c.Keeps :=
    fun t cuts h => List.forall_mem_cons.mpr ⟨trivial, h⟩
  have hdata : ∀ form, ∀ c ∈ dataCuts form, c.Keeps := by
    intro form c hc
    have hc := isData_dataCuts form c hc
    cases c with
    | text t => trivial
    | path names p =>
      obtain ⟨rfl, -⟩ := hc
      exact List.not_mem_nil
    | part => contradiction
  cases a with
  | const pos value => exact iff_of_true (hdata value) trivial
  | quote pos form => exact iff_of_true (hdata form) trivial
  | var pos ns name => exact iff_of_true (hpath _ (by simp)) trivial
  | vector | set | map => exact iff_of_true (hpath _ (htext _ (hplain _))) trivial
  | define | cond => exact iff_of_true (htext _ (hpath _ (htext _ (hplain _)))) trivial
  | bind pos bindings body =>
    rw [cuts, keeps_inside_iff, filterMap_template]
    exact forall₂_comm
  | func pos name params rest body =>
    have hbody : (returning body ++ [Segment.text "\n\x7d)"]).filterMap Segment.part? = body := by
      simp
    rw [cuts, List.cons_append, List.forall_mem_cons, List.forall_mem_append, keeps_restCuts_iff,
      keeps_inside_iff, hbody]
    exact (and_iff_right trivial).trans (and_congr_right' forall₂_comm)
  | guard pos body handler cleanup =>
    rw [cuts, List.forall_mem_append, List.forall_mem_append,
      keeps_inside_iff (handler.map Prod.fst).toList, filterMap_catching, and_iff_left (hplain _),
      and_iff_right (hplain _)]
    cases handler with
    | none => exact iff_of_true (fun b hb => absurd hb List.not_mem_nil) trivial
    | some handler => simp [KeepsPaths]
  | _ => exact iff_of_true (hplain _) trivial

/-! ## Paths that keep their meaning -/

/-- The path begins with an identifier that is not bound around it. -/
def Stretch.IsGlobal : Stretch → Prop
  | .text _ => True
  | .path bound p => rootOf p ∉ bound

theorem global_cut_iff {c : Cut} {bound : List String}
    (h : ∀ names b, c = .part names b → ((∀ s ∈ stretchesIn (names ++ bound) b, s.IsGlobal) ↔
      (∀ x ∈ names ++ bound, Spares x b) ∧ Everywhere KeepsPaths b)) :
    (∀ s ∈ c.stretchesIn bound, s.IsGlobal) ↔
      (∀ x ∈ bound, c.Spares x) ∧ c.Keeps ∧ ∀ b ∈ c.part?, Everywhere KeepsPaths b := by
  cases c with
  | text t => simp [Cut.stretchesIn, Stretch.IsGlobal, Cut.Spares, Cut.Keeps, Cut.part?]
  | path names p =>
    have hspares : (∀ x ∈ bound, rootOf p ≠ x) ↔ rootOf p ∉ bound := by
      constructor
      · exact fun h hmem => h _ hmem rfl
      · rintro h x hx rfl
        exact h hx
    simp [Cut.stretchesIn, Stretch.IsGlobal, Cut.Spares, Cut.Keeps, Cut.part?, hspares, and_comm]
  | part names b =>
    rw [Cut.stretchesIn, h names b rfl, List.forall_mem_append]
    simp only [Cut.Spares, Cut.Keeps, Cut.part?, Option.mem_def, Option.some.injEq, forall_eq']
    tauto

theorem global_stretchesIn_iff (bound : List String) (a : Ast) :
    (∀ s ∈ stretchesIn bound a, s.IsGlobal) ↔
      (∀ x ∈ bound, Spares x a) ∧ Everywhere KeepsPaths a := by
  -- what an expression binds is bound around its parts, so `bound` grows on the way down
  induction a using Ast.induct generalizing bound with
  | step a ih =>
    have hcut : ∀ c ∈ cuts a, (∀ s ∈ c.stretchesIn bound, s.IsGlobal) ↔
        (∀ x ∈ bound, c.Spares x) ∧ c.Keeps ∧ ∀ b ∈ c.part?, Everywhere KeepsPaths b := by
      intro c hc
      apply global_cut_iff
      rintro names b rfl
      exact ih b (mem_parts_of_mem_cuts hc) (names ++ bound)
    have hparts : (∀ c ∈ cuts a, ∀ b ∈ c.part?, Everywhere KeepsPaths b) ↔
        ∀ b ∈ a.parts, Everywhere KeepsPaths b := by
      rw [← filterMap_cuts]
      constructor
      · intro h b hb
        obtain ⟨c, hc, hb⟩ := List.mem_filterMap.mp hb
        exact h c hc b hb
      · intro h c hc b hb
        exact h b (List.mem_filterMap.mpr ⟨c, hc, hb⟩)
    rw [stretchesIn_eq, List.forall_mem_flatMap, everywhere_iff, ← keeps_cuts_iff, ← hparts]
    simp only [← spares_cuts_iff]
    rw [forall₂_congr hcut]
    constructor
    · intro h
      exact ⟨fun x hx c hc => (h c hc).1 x hx, fun c hc => (h c hc).2.1, fun c hc => (h c hc).2.2⟩
    · rintro ⟨hspares, hkeeps, hparts⟩ c hc
      exact ⟨fun x hx => hspares x hx c hc, hkeeps c hc, hparts c hc⟩

/-! ## Scripts -/

/-- The stretches of the script of a top-level form.  A declaration has no paths. -/
def stretches : Ast → List Stretch
  | .ns pos decl => [.text (scriptText (declarationPieces pos decl))]
  | a => stretchesIn [] a ++ [.text ";"]

theorem stretches_eq {a : Ast} (h : a.nsDecl? = none) :
    stretches a = stretchesIn [] a ++ [.text ";"] := by
  cases a with
  | ns => contradiction
  | _ => rfl

theorem chars_stretches (sourceMap : Bool) (a : Ast) :
    (stretches a).flatMap Stretch.chars = (emit sourceMap a).js.toList := by
  rcases eq_ns_or a with ⟨pos, decl, rfl⟩ | h
  · exact List.append_nil _
  · rw [stretches_eq h, List.flatMap_append, chars_stretchesIn, toList_emit sourceMap h]
    rfl

theorem global_stretches_iff (a : Ast) :
    (∀ s ∈ stretches a, s.IsGlobal) ↔ Everywhere KeepsPaths a := by
  rcases eq_ns_or a with ⟨pos, decl, rfl⟩ | h
  · rw [everywhere_iff]
    exact iff_of_true (List.forall_mem_singleton.mpr trivial)
      ⟨trivial, fun b hb => absurd hb List.not_mem_nil⟩
  · have hend : (Stretch.text ";").IsGlobal := trivial
    rw [stretches_eq h, List.forall_mem_append, global_stretchesIn_iff, List.forall_mem_singleton,
      and_iff_left hend]
    exact and_iff_right fun x hx => absurd hx List.not_mem_nil

/-- The stretches are the script, and every path in it begins with an identifier that is not bound
around it exactly if no expression binds an identifier that a path inside begins with. -/
theorem paths_global_iff (sourceMap : Bool) (a : Ast) :
    (stretches a).flatMap Stretch.chars = (emit sourceMap a).js.toList ∧
      ((∀ s ∈ stretches a, s.IsGlobal) ↔ Everywhere KeepsPaths a) :=
  ⟨chars_stretches sourceMap a, global_stretches_iff a⟩

/-- `(let [cljs 1] [cljs])`. -/
def rootBinding : Form :=
  .list .start
    [.symbol "let" .start, .vector .start [.symbol "cljs" .start, .atom .start (.int 1)],
      .vector .start [.symbol "cljs" .start]]

/-- The vector is built by a path that begins with the local. -/
theorem local_takes_path :
    ¬∀ (ns : String) (form : Form) (env env' : Analysis.Env) (ast : Ast),
      Analysis.analyze ns form env = .ok ast env' → ∀ s ∈ stretches ast, s.IsGlobal := by
  intro h
  let vector : Ast := .vector .start [.local .start "cljs"]
  have hrun : Analysis.analyze Analysis.userNs rootBinding .initial =
      .ok (.bind .start [("cljs", .const .start (.atom .start (.int 1)))] [vector]) .initial := rfl
  have hglobal := h _ _ _ _ _ hrun
  rw [global_stretches_iff, everywhere_iff] at hglobal
  have hspares : Spares "cljs" vector := hglobal.1 "cljs" (by decide) vector (by simp)
  have hown : "cljs" ∉ ownRoots vector := ((everywhere_iff _ _).mp hspares).1
  exact hown (by decide)

end Script

end LiveLisp
