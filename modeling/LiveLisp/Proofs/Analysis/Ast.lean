import LiveLisp.Analysis.Ast
/-!
# Analyzed forms as trees

Induction over analyzed forms, and the change of the names of all locals.
-/

namespace LiveLisp.Analysis

namespace Ast

/-! ## Parts -/

/-- The analyzed forms that a form is made of. -/
def parts : Ast → List Ast
  | .const .. | .quote .. | .var .. | .local .. | .global .. | .ns .. => []
  | .vector _ items | .set _ items => items
  | .map _ entries => entries.flatMap fun e => [e.1, e.2]
  | .define _ _ _ init => init.toList
  | .block _ body => body
  | .cond _ test thenBranch elseBranch => test :: thenBranch :: elseBranch.toList
  | .bind _ bindings body => bindings.map Prod.snd ++ body
  | .func _ _ _ _ body => body
  | .assign _ target value => [target, value]
  | .throw _ value => [value]
  | .guard _ body handler cleanup => body ++ (handler.map Prod.snd).getD [] ++ cleanup
  | .new _ ctor args => ctor :: args
  | .method _ target _ args => target :: args
  | .field _ target _ => [target]
  | .invoke _ callee args => callee :: args

theorem sizeOf_lt_of_mem_parts {a b : Ast} (h : b ∈ a.parts) : sizeOf b < sizeOf a := by
  have hlist : ∀ {items : List Ast}, b ∈ items → sizeOf b < sizeOf items :=
    fun hb => List.sizeOf_lt_of_mem hb
  cases a with
  | const | quote | var | «local» | global | ns => simp [parts] at h
  | vector _ items =>
    have hb : sizeOf b < sizeOf items := hlist h
    simp only [vector.sizeOf_spec]
    omega
  | set _ items =>
    have hb : sizeOf b < sizeOf items := hlist h
    simp only [set.sizeOf_spec]
    omega
  | map _ entries =>
    obtain ⟨⟨k, v⟩, he, hb⟩ := List.mem_flatMap.mp h
    have hlt := List.sizeOf_lt_of_mem he
    simp only [List.mem_cons, List.not_mem_nil, or_false] at hb
    simp only [Prod.mk.sizeOf_spec] at hlt
    simp only [map.sizeOf_spec]
    rcases hb with rfl | rfl <;> omega
  | define _ _ _ init =>
    obtain rfl : init = some b := by simpa [parts] using h
    simp only [define.sizeOf_spec, Option.some.sizeOf_spec]
    omega
  | block _ body =>
    have hb : sizeOf b < sizeOf body := hlist h
    simp only [block.sizeOf_spec]
    omega
  | cond _ test thenBranch elseBranch =>
    simp only [parts, List.mem_cons, Option.mem_toList] at h
    simp only [cond.sizeOf_spec]
    rcases h with rfl | rfl | rfl
    · omega
    · omega
    · simp only [Option.some.sizeOf_spec]
      omega
  | bind _ bindings body =>
    simp only [bind.sizeOf_spec]
    rcases List.mem_append.mp h with h | h
    · obtain ⟨⟨x, init⟩, hmem, rfl⟩ := List.mem_map.mp h
      have hlt := List.sizeOf_lt_of_mem hmem
      simp only [Prod.mk.sizeOf_spec] at hlt
      change sizeOf init < _
      omega
    · have hb := hlist h
      omega
  | func _ _ _ _ body =>
    have hb : sizeOf b < sizeOf body := hlist h
    simp only [func.sizeOf_spec]
    omega
  | assign _ target value =>
    simp only [parts, List.mem_cons, List.not_mem_nil, or_false] at h
    simp only [assign.sizeOf_spec]
    rcases h with rfl | rfl <;> omega
  | throw _ value =>
    obtain rfl : b = value := by simpa [parts] using h
    simp only [throw.sizeOf_spec]
    omega
  | guard _ body handler cleanup =>
    simp only [parts, List.mem_append] at h
    simp only [guard.sizeOf_spec]
    rcases h with (h | h) | h
    · have hb := hlist h
      omega
    · cases handler with
      | none => simp at h
      | some handler =>
        obtain ⟨x, handling⟩ := handler
        have hb : sizeOf b < sizeOf handling := hlist h
        simp only [Option.some.sizeOf_spec, Prod.mk.sizeOf_spec]
        omega
    · have hb := hlist h
      omega
  | new _ ctor args =>
    simp only [new.sizeOf_spec]
    rcases List.mem_cons.mp h with rfl | h
    · omega
    · have hb := hlist h
      omega
  | method _ target _ args =>
    simp only [method.sizeOf_spec]
    rcases List.mem_cons.mp h with rfl | h
    · omega
    · have hb := hlist h
      omega
  | field _ target _ =>
    obtain rfl : b = target := by simpa [parts] using h
    simp only [field.sizeOf_spec]
    omega
  | invoke _ callee args =>
    simp only [invoke.sizeOf_spec]
    rcases List.mem_cons.mp h with rfl | h
    · omega
    · have hb := hlist h
      omega

/-- Induction over analyzed forms: what holds of all parts of a form may be used for the form. -/
theorem induct {P : Ast → Prop} (step : ∀ a : Ast, (∀ b ∈ a.parts, P b) → P a) (a : Ast) : P a :=
  step a fun b hb =>
    have _ := sizeOf_lt_of_mem_parts hb
    induct step b
termination_by sizeOf a

/-- A form and all forms below it, each before its parts. -/
def preorder (a : Ast) : List Ast :=
  a :: a.parts.attach.flatMap fun b =>
    have := sizeOf_lt_of_mem_parts b.2
    preorder b.1
termination_by sizeOf a

theorem preorder_eq (a : Ast) : a.preorder = a :: a.parts.flatMap preorder := by
  have hmap := List.flatMap_map Subtype.val preorder (l := a.parts.attach)
  rw [List.attach_map_subtype_val] at hmap
  rw [preorder, hmap]

theorem mem_preorder_self (a : Ast) : a ∈ a.preorder := by
  rw [preorder_eq]
  exact List.mem_cons_self

/-! ## Names of locals -/

mutual

/-- The same form with every local, bound or used, written as `spell` says. -/
def spelled (spell : String → String) : Ast → Ast
  | .const pos value => .const pos value
  | .quote pos form => .quote pos form
  | .var pos space name => .var pos space name
  | .local pos name => .local pos (spell name)
  | .global pos name => .global pos name
  | .vector pos items => .vector pos (spelledAll spell items)
  | .set pos items => .set pos (spelledAll spell items)
  | .map pos entries => .map pos (spelledEntries spell entries)
  | .ns pos decl => .ns pos decl
  | .define pos space name init => .define pos space name (spelledOption spell init)
  | .block pos body => .block pos (spelledAll spell body)
  | .cond pos test thenBranch elseBranch =>
    .cond pos (spelled spell test) (spelled spell thenBranch) (spelledOption spell elseBranch)
  | .bind pos bindings body =>
    .bind pos (spelledBindings spell bindings) (spelledAll spell body)
  | .func pos name params rest body =>
    .func pos (name.map spell) (params.map spell) (rest.map spell) (spelledAll spell body)
  | .assign pos target value => .assign pos (spelled spell target) (spelled spell value)
  | .throw pos value => .throw pos (spelled spell value)
  | .guard pos body handler cleanup =>
    .guard pos (spelledAll spell body) (spelledHandler spell handler) (spelledAll spell cleanup)
  | .new pos ctor args => .new pos (spelled spell ctor) (spelledAll spell args)
  | .method pos target name args =>
    .method pos (spelled spell target) name (spelledAll spell args)
  | .field pos target name => .field pos (spelled spell target) name
  | .invoke pos callee args => .invoke pos (spelled spell callee) (spelledAll spell args)

def spelledAll (spell : String → String) : List Ast → List Ast
  | [] => []
  | x :: rest => spelled spell x :: spelledAll spell rest

def spelledEntries (spell : String → String) : List (Ast × Ast) → List (Ast × Ast)
  | [] => []
  | (k, v) :: rest => (spelled spell k, spelled spell v) :: spelledEntries spell rest

def spelledOption (spell : String → String) : Option Ast → Option Ast
  | none => none
  | some x => some (spelled spell x)

def spelledBindings (spell : String → String) : List (String × Ast) → List (String × Ast)
  | [] => []
  | (name, init) :: rest => (spell name, spelled spell init) :: spelledBindings spell rest

def spelledHandler (spell : String → String) :
    Option (String × List Ast) → Option (String × List Ast)
  | none => none
  | some (name, body) => some (spell name, spelledAll spell body)

end

@[simp] theorem isAssignable_spelled (spell : String → String) (a : Ast) :
    (a.spelled spell).isAssignable = a.isAssignable := by
  cases a <;> rfl

@[simp] theorem isInertConst_spelled (spell : String → String) (a : Ast) :
    (a.spelled spell).isInertConst = a.isInertConst := by
  cases a <;> rfl

end Ast

end LiveLisp.Analysis
