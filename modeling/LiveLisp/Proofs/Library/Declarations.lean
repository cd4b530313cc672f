import LiveLisp.Proofs.Script.Requires
/-!
# Declarations are found as they were written

A declaration is written as calls with quoted names, and an index finds calls with quoted names in
a text.  The two agree: whatever its names are, as long as they are made of the characters of
names, the script of a declaration is indexed as providing the declared namespace and requiring
what it was written with, each name once.
-/

namespace LiveLisp

variable {α : Type} [DecidableEq α]

theorem insertAllNew_eq_append (xs ys : List α) :
    insertAllNew xs ys = xs ++ (ys.filter (· ∉ xs)).eraseDups := by
  induction ys generalizing xs with
  | nil => simp [insertAllNew]
  | cons y ys ih =>
    change insertAllNew (insertNew xs y) ys = _
    rw [ih]
    unfold insertNew
    by_cases hy : y ∈ xs
    · simp [hy]
    · -- what is new once `y` is there is what was new and is not `y`
      have hnew : ys.filter (· ∉ xs ++ [y]) = (ys.filter (· ∉ xs)).filter fun x => !x == y := by
        rw [List.filter_filter]
        refine List.filter_congr fun x _ => ?_
        by_cases hx : x ∈ xs <;> by_cases hxy : x = y <;> simp [hx, hxy]
      rw [if_neg hy, hnew, List.filter_cons_of_pos (by simpa using hy), List.eraseDups_cons,
        List.append_assoc, List.singleton_append]

theorem distinct_eq_eraseDups (xs : List α) : distinct xs = xs.eraseDups := by
  simp [distinct, insertAllNew_eq_append]

namespace Library

open Text (Position isBlank)
open Munge (mungePath)
open Analysis (NsDecl coreNs)
open Script (emit requirements required)

/-! ## One call -/

/-- A call of `function` with one name in quotes, and perhaps blanks around them. -/
def IsCall (function name call : List Char) : Prop :=
  ∃ before opening closing after, (∀ c ∈ before, isBlank c = true) ∧ isQuote opening = true ∧
    name ≠ [] ∧ (∀ c ∈ name, isNameChar c = true) ∧ isQuote closing = true ∧
    (∀ c ∈ after, isBlank c = true) ∧
    call = function ++ (before ++ opening :: (name ++ closing :: (after ++ [')'])))

theorem isBlank_of_isQuote {c : Char} (h : isQuote c = true) : isBlank c = false := by
  rcases (by simpa [isQuote] using h : c = '\x27' ∨ c = '"') with rfl | rfl <;> decide

theorem isNameChar_of_isQuote {c : Char} (h : isQuote c = true) : isNameChar c = false := by
  rcases (by simpa [isQuote] using h : c = '\x27' ∨ c = '"') with rfl | rfl <;> decide

theorem dropWhile_append_stop {p : Char → Bool} {s t : List Char} {c : Char}
    (hs : ∀ d ∈ s, p d = true) (hc : p c = false) : (s ++ c :: t).dropWhile p = c :: t := by
  rw [List.dropWhile_append_of_pos hs, List.dropWhile_cons_of_neg (by simp [hc])]

/-- A call is found where it begins, up to its closing bracket. -/
theorem callAt?_append {function name call : List Char} (h : IsCall function name call)
    (rest : List Char) : callAt? function (call ++ rest) = some (name, rest) := by
  obtain ⟨before, opening, closing, after, hbefore, hopening, hne, hname, hclosing, hafter, rfl⟩ :=
    h
  have hspan : (name ++ closing :: (after ++ ')' :: rest)).span isNameChar =
      (name, closing :: (after ++ ')' :: rest)) := by
    have hstop := isNameChar_of_isQuote hclosing
    rw [List.span_eq_takeWhile_dropWhile, List.takeWhile_append_of_pos hname,
      List.takeWhile_cons_of_neg (by simp [hstop]), List.append_nil,
      dropWhile_append_stop hname hstop]
  obtain ⟨first, others, rfl⟩ := List.exists_cons_of_ne_nil hne
  simp only [List.append_assoc, List.cons_append, List.nil_append] at hspan ⊢
  unfold callAt?
  rw [if_pos (by simp), List.drop_left, dropWhile_append_stop hbefore (isBlank_of_isQuote hopening)]
  dsimp only
  rw [if_pos hopening, hspan]
  dsimp only
  rw [if_pos hclosing, dropWhile_append_stop hafter (by decide)]
  rfl

theorem callsFrom_skip (function : List Char) (k : Nat) (text : List Char) :
    callsFrom function k text = callsFrom function 0 (text.drop k) := by
  induction text generalizing k with
  | nil => simp [callsFrom]
  | cons c text ih =>
    cases k with
    | zero => rfl
    | succ k => exact ih k

/-- Behind a call the search goes on. -/
theorem callsFrom_call {function name call : List Char} (h : IsCall function name call)
    (rest : List Char) :
    callsFrom function 0 (call ++ rest) = String.ofList name :: callsFrom function 0 rest := by
  have hcall := callAt?_append h rest
  obtain ⟨c, more, rfl⟩ : ∃ c more, call = c :: more := by
    obtain ⟨before, opening, closing, after, -, -, -, -, -, -, rfl⟩ := h
    exact List.exists_cons_of_ne_nil (by simp)
  rw [List.cons_append] at hcall ⊢
  rw [callsFrom, hcall]
  dsimp only
  rw [callsFrom_skip, List.length_append, Nat.add_sub_cancel, List.drop_left]

/-! ## Text without calls -/

/-- No part of `text` can be the beginning of `key`, whatever follows. -/
def Apart (key text : List Char) : Prop :=
  ∀ part ∈ text.tails, part ≠ [] → ¬key <+: part ∧ ¬part <+: key

instance (key text : List Char) : Decidable (Apart key text) :=
  inferInstanceAs (Decidable (∀ part ∈ text.tails, part ≠ [] → _))

theorem callsFrom_append_of_apart {function text : List Char} (h : Apart function text)
    (rest : List Char) :
    callsFrom function 0 (text ++ rest) = callsFrom function 0 rest := by
  induction text with
  | nil => rfl
  | cons c text ih =>
    obtain ⟨hkey, hpart⟩ := h (c :: text) (by simp) (List.cons_ne_nil c text)
    -- of two beginnings of one text, one is a beginning of the other
    have hnone : callAt? function (c :: (text ++ rest)) = none := by
      unfold callAt?
      refine if_neg fun hprefix => ?_
      rcases List.prefix_or_prefix_of_prefix (List.isPrefixOf_iff_prefix.mp hprefix)
        (List.prefix_append (c :: text) rest) with hle | hle
      · exact hkey hle
      · exact hpart hle
    rw [List.cons_append, callsFrom, hnone]
    exact ih fun part hpart' => h part (by simp at hpart' ⊢; exact .inr hpart')

/-! ## The script of a declaration -/

/-- Names as they stand in declarations. -/
def IsNamespaceName (name : String) : Prop :=
  name ≠ "" ∧ name.toList.all isNameChar = true

instance (name : String) : Decidable (IsNamespaceName name) := inferInstanceAs (Decidable (_ ∧ _))

/-- A name up to its quote holds no call: a call has a bracket and no quote before its name. -/
theorem IsNamespaceName.apart {name : String} (h : IsNamespaceName name) {key : List Char}
    (hbracket : '(' ∈ key) (hquote : '\x27' ∉ key) : Apart key (name.toList ++ ['\x27']) := by
  have hname : '(' ∉ name.toList := fun hmem =>
    absurd (List.all_eq_true.mp h.2 _ hmem) (by decide)
  intro part hpart hne
  obtain ⟨before, hsplit⟩ := (List.mem_tails _ _).mp hpart
  constructor
  · rintro ⟨more, rfl⟩
    have hmem : '(' ∈ name.toList ++ ['\x27'] := by
      rw [← hsplit]
      simp [hbracket]
    simp [hname] at hmem
  · rintro ⟨more, rfl⟩
    have hlast : part.getLast? = some '\x27' := by
      have heq := congrArg List.getLast? hsplit
      rw [List.getLast?_append_of_ne_nil _ hne, List.getLast?_concat] at heq
      exact heq
    exact hquote (List.mem_append_left _ (List.mem_of_getLast? hlast))

theorem IsNamespaceName.isCall {name : String} (h : IsNamespaceName name) (function : List Char) :
    IsCall function name.toList
      (function ++ '\x27' :: (name.toList ++ '\x27' :: [')'])) :=
  ⟨[], '\x27', '\x27', [], by simp, rfl, by simpa using h.1, List.all_eq_true.mp h.2, rfl, by simp,
    rfl⟩

def provideKey : List Char := "goog.provide(".toList

def requireKey : List Char := "goog.require(".toList

theorem requirements_eq_cons (names : List String) :
    ∃ rest, requirements [] names = ')' :: rest := by
  cases names <;> exact ⟨_, rfl⟩

/-- Text that is apart from a key may be cut off up to a quote. -/
theorem callsFrom_quoted {key front name : List Char} (hfront : Apart key (front ++ ['\x27']))
    (hname : Apart key (name ++ ['\x27'])) (rest : List Char) :
    callsFrom key 0 (front ++ '\x27' :: (name ++ '\x27' :: rest)) = callsFrom key 0 rest := by
  have hsplit : front ++ '\x27' :: (name ++ '\x27' :: rest) =
      (front ++ ['\x27']) ++ ((name ++ ['\x27']) ++ rest) := by simp
  rw [hsplit, callsFrom_append_of_apart hfront, callsFrom_append_of_apart hname]

theorem callsFrom_provideKey_requirements {names : List String}
    (h : ∀ name ∈ names, IsNamespaceName name) :
    callsFrom provideKey 0 (requirements [] names) = [] := by
  induction names with
  | nil => decide
  | cons name names ih =>
    obtain ⟨hname, hnames⟩ := List.forall_mem_cons.mp h
    have hfront : Apart provideKey (");\ngoog.require(".toList ++ ['\x27']) := by decide
    rw [Script.requirements_cons, callsFrom_quoted hfront (hname.apart (by decide) (by decide)),
      ih hnames]

theorem callsFrom_requireKey_requirements {names : List String}
    (h : ∀ name ∈ names, IsNamespaceName name) :
    callsFrom requireKey 0 (requirements [] names) = names := by
  induction names with
  | nil => decide
  | cons name names ih =>
    obtain ⟨hname, hnames⟩ := List.forall_mem_cons.mp h
    obtain ⟨rest, hrest⟩ := requirements_eq_cons names
    have hbracket : Apart requireKey [')'] := by decide
    have hfront : Apart requireKey ");\n".toList := by decide
    have hbehind : callsFrom requireKey 0 rest = names := by
      rw [← callsFrom_append_of_apart hbracket rest, List.singleton_append, ← hrest, ih hnames]
    have hsplit : requirements [] (name :: names) = ");\n".toList ++
        ((requireKey ++ '\x27' :: (name.toList ++ '\x27' :: [')'])) ++ rest) := by
      have hopening : ");\ngoog.require(".toList = ");\n".toList ++ requireKey := by decide
      rw [Script.requirements_cons, hrest, hopening]
      simp only [List.append_assoc, List.cons_append, List.nil_append]
    rw [hsplit, callsFrom_append_of_apart hfront, callsFrom_call (hname.isCall requireKey),
      hbehind, String.ofList_toList]

theorem isNamespaceName_of_mem_required {decl : NsDecl}
    (hdeps : ∀ dep ∈ decl.runtimeDeps, IsNamespaceName (mungePath dep)) {name : String}
    (h : name ∈ required decl) : IsNamespaceName name := by
  rcases List.mem_append.mp h with h | h
  · split at h
    · rw [List.mem_singleton.mp h]
      decide
    · exact absurd h List.not_mem_nil
  · obtain ⟨dep, hdep, rfl⟩ := List.mem_map.mp h
    exact hdeps dep (List.mem_filter.mp hdep).1

/-- The script of a declaration is indexed as it was declared, if its names are made of the
characters of names. -/
theorem index_of_declaration {decl : NsDecl} (hname : IsNamespaceName (mungePath decl.name))
    (hdeps : ∀ dep ∈ decl.runtimeDeps, IsNamespaceName (mungePath dep)) (sourceMap : Bool)
    (pos : Position) :
    providesOf (emit sourceMap (.ns pos decl)).js = [mungePath decl.name] ∧
      requiresOf (emit sourceMap (.ns pos decl)).js =
        ((if decl.name = coreNs then [] else [coreNs]) ++
          (decl.runtimeDeps.filter (· ≠ coreNs)).map mungePath).eraseDups := by
  have htext := Script.toList_emit_ns sourceMap pos decl []
  rw [List.append_nil] at htext
  have hrequired : ∀ name ∈ required decl, IsNamespaceName name :=
    fun _ h => isNamespaceName_of_mem_required hdeps h
  constructor
  · obtain ⟨rest, hrest⟩ := requirements_eq_cons (required decl)
    have hbracket : Apart provideKey [')'] := by decide
    have hbehind : callsFrom provideKey 0 rest = [] := by
      rw [← callsFrom_append_of_apart hbracket rest, List.singleton_append, ← hrest,
        callsFrom_provideKey_requirements hrequired]
    have hsplit : (emit sourceMap (.ns pos decl)).js.toList =
        (provideKey ++ '\x27' :: ((mungePath decl.name).toList ++ '\x27' :: [')'])) ++ rest := by
      rw [htext, hrest]
      unfold provideKey
      simp only [List.append_assoc, List.cons_append, List.nil_append]
    change distinct (callsFrom provideKey 0 _) = _
    rw [hsplit, callsFrom_call (hname.isCall provideKey), hbehind, String.ofList_toList]
    rfl
  · have hfront : Apart requireKey ("goog.provide(".toList ++ ['\x27']) := by decide
    have hlist : (if decl.name = coreNs then [] else [coreNs]) ++
        (decl.runtimeDeps.filter (· ≠ coreNs)).map mungePath = required decl := by
      unfold required
      by_cases hcore : decl.name = coreNs <;> simp [hcore]
    rw [hlist, ← distinct_eq_eraseDups]
    change distinct (callsFrom requireKey 0 _) = _
    rw [htext, callsFrom_quoted hfront (hname.apart (by decide) (by decide)),
      callsFrom_requireKey_requirements hrequired]

/-- A declaration that depends on itself, twice on one name, and on names that munge alike. -/
def knottedDeclaration : NsDecl where
  name := "my-app.default"
  requires := ["a-b", "cljs.core", "my-app.default", "a_b"]
  uses := ["goog.provide", "a-b", "x"]
  requireMacros := []

theorem index_of_knottedDeclaration :
    IsNamespaceName (mungePath knottedDeclaration.name) ∧
      (∀ dep ∈ knottedDeclaration.runtimeDeps, IsNamespaceName (mungePath dep)) ∧
      providesOf (emit true (.ns .start knottedDeclaration)).js = ["my_app.default$"] ∧
      requiresOf (emit true (.ns .start knottedDeclaration)).js =
        ["cljs.core", "a_b", "my_app.default$", "goog.provide", "x"] := by
  have hname : IsNamespaceName (mungePath knottedDeclaration.name) := by decide +kernel
  have hdeps : ∀ dep ∈ knottedDeclaration.runtimeDeps, IsNamespaceName (mungePath dep) := by
    decide +kernel
  obtain ⟨hprovides, hrequires⟩ := index_of_declaration hname hdeps true .start
  refine ⟨hname, hdeps, hprovides.trans ?_, hrequires.trans ?_⟩
  · decide +kernel
  · decide +kernel

end Library

end LiveLisp
