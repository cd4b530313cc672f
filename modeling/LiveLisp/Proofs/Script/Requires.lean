import LiveLisp.Library.Declarations
import LiveLisp.Proofs.Text.Base64
import LiveLisp.Proofs.Text.Digits
import LiveLisp.Session.Evaluation
import Mathlib.Data.List.Infix
/-!
# What the script of a declaration requires

A declaration is written with one call for each namespace it depends on, and the name in the call
is munged.  Quotes stand nowhere but around these names, so the text holds no other call that could
be taken for one of them, whatever the declared namespace is called.
-/

namespace LiveLisp.Munge

/-! ## Characters of munged names -/

/-- A character is spelled out with an underscore, or stands for itself. -/
theorem mungeChar_cases (c : Char) :
    ('_' ∈ mungeChar c ∧ ∀ d ∈ mungeChar c, d = '_' ∨ d.isUpper = true) ∨
      mungeChar c = [c] ∧ c ∉ spellings.map Prod.fst := by
  have hall : spellings.all (fun s => decide ('_' ∈ s.2) &&
      s.2.all fun d => d = '_' || d.isUpper) = true := by decide +kernel
  have hspelled : ∀ s ∈ spellings, '_' ∈ s.2 ∧ ∀ d ∈ s.2, d = '_' ∨ d.isUpper = true := by
    simpa using hall
  unfold mungeChar
  split
  · exact .inl (by simp)
  · split
    · next k spelling hfound => exact .inl (hspelled _ (List.mem_of_find?_eq_some hfound))
    · next hnone =>
      refine .inr ⟨rfl, ?_⟩
      rintro hmem
      obtain ⟨s, hs, rfl⟩ := List.mem_map.mp hmem
      exact absurd (List.find?_eq_none.mp hnone s hs) (by simp)

theorem mem_mungeChars {name : List Char} {c : Char} (h : c ∈ mungeChars name) :
    c = '$' ∨ ∃ d ∈ name, c ∈ mungeChar d := by
  unfold mungeChars at h
  dsimp only at h
  split at h
  · rcases List.mem_append.mp h with h | h
    · exact .inr (List.mem_flatMap.mp h)
    · exact .inl (List.mem_singleton.mp h)
  · exact .inr (List.mem_flatMap.mp h)

theorem mem_intercalate_iff {mark c : Char} {pieces : List (List Char)} (hc : c ≠ mark) :
    c ∈ [mark].intercalate pieces ↔ ∃ p ∈ pieces, c ∈ p := by
  induction pieces with
  | nil => simp [List.intercalate]
  | cons p rest ih =>
    cases rest with
    | nil => simp [List.intercalate_singleton]
    | cons q rest =>
      rw [List.intercalate_cons_cons]
      simp [ih, hc]

/-- A character of a path joins segments, marks a reserved word, or comes from the name. -/
theorem mem_mungePath {name : String} {c : Char} (h : c ∈ (mungePath name).toList) :
    c = '.' ∨ c = '$' ∨ ∃ d ∈ name.toList, c ∈ mungeChar d := by
  by_cases hc : c = '.'
  · exact .inl hc
  rw [mungePath, String.toList_ofList, mem_intercalate_iff hc] at h
  obtain ⟨p, hp, hcp⟩ := h
  obtain ⟨segment, hsegment, rfl⟩ := List.mem_map.mp hp
  rcases mem_mungeChars hcp with hc | ⟨d, hd, hcd⟩
  · exact .inr (.inl hc)
  · have hdot : d ≠ '.' := by
      rintro rfl
      exact hc (List.mem_singleton.mp hcd)
    refine .inr (.inr ⟨d, ?_, hcd⟩)
    have hname : ['.'].intercalate (name.toList.splitOn '.') = name.toList :=
      List.intercalate_splitOn '.'
    rw [← hname]
    exact (mem_intercalate_iff hdot).mpr ⟨segment, hsegment, hd⟩

theorem quote_not_mem_mungePath (name : String) : '\x27' ∉ (mungePath name).toList := by
  intro h
  rcases mem_mungePath h with h | h | ⟨d, -, hd⟩
  · exact absurd h (by decide)
  · exact absurd h (by decide)
  · rcases mungeChar_cases d with ⟨-, hspelled⟩ | ⟨hself, hfree⟩
    · exact absurd (hspelled _ hd) (by decide)
    · rw [hself, List.mem_singleton] at hd
      exact hfree (hd ▸ by decide)

theorem mem_of_bracket_mem_mungePath {name : String} (h : ')' ∈ (mungePath name).toList) :
    ')' ∈ name.toList := by
  rcases mem_mungePath h with h | h | ⟨d, hd, hbracket⟩
  · exact absurd h (by decide)
  · exact absurd h (by decide)
  · rcases mungeChar_cases d with ⟨-, hspelled⟩ | ⟨hself, -⟩
    · exact absurd (hspelled _ hbracket) (by decide)
    · rw [hself, List.mem_singleton] at hbracket
      rwa [hbracket]

/-- A path without an underscore and without a mark is the name itself. -/
theorem mungePath_eq_self {name : String}
    (h : ∀ c ∈ (mungePath name).toList, c ≠ '_' ∧ c ≠ '$') : mungePath name = name := by
  have hsegment : ∀ segment ∈ name.toList.splitOn '.', mungeChars segment = segment := by
    intro segment hsegment
    have hclean : ∀ c ∈ mungeChars segment, c ≠ '_' ∧ c ≠ '$' := by
      intro c hc
      by_cases hdot : c = '.'
      · rw [hdot]
        decide
      · apply h
        rw [mungePath, String.toList_ofList, mem_intercalate_iff hdot]
        exact ⟨_, List.mem_map_of_mem hsegment, hc⟩
    unfold mungeChars at hclean ⊢
    dsimp only at hclean ⊢
    split at hclean
    · exact absurd rfl (hclean '$' (by simp)).2
    · next hfree =>
      rw [if_neg hfree]
      have hself : ∀ d ∈ segment, mungeChar d = [d] := by
        intro d hd
        rcases mungeChar_cases d with ⟨hmark, -⟩ | ⟨hself, -⟩
        · exact absurd rfl (hclean '_' (List.mem_flatMap.mpr ⟨d, hd, hmark⟩)).1
        · exact hself
      rw [List.flatMap_congr hself, List.flatMap_singleton']
  rw [mungePath, List.map_congr_left hsegment, List.map_id', List.intercalate_splitOn,
    String.ofList_toList]

end LiveLisp.Munge

namespace LiveLisp.Script

open Analysis (NsDecl coreNs)
open Munge (mungePath)

/-! ## Names between quotes -/

/-- The call that requires a namespace. -/
def requirement (ns : String) : String := "goog.require('" ++ ns ++ "')"

/-- The script holds a call that requires `ns`. -/
def Requires (code ns : String) : Prop :=
  '\x27' ∉ ns.toList ∧ (requirement ns).toList <:+: code.toList

instance (code ns : String) : Decidable (Requires code ns) := inferInstanceAs (Decidable (_ ∧ _))

theorem toList_requirement (ns : String) :
    (requirement ns).toList = "goog.require('".toList ++ (ns.toList ++ "')".toList) := by
  unfold requirement
  rw [String.toList_append, String.toList_append, List.append_assoc]

/-- Behind the closing quote of a name: the calls for the names to come, and what follows them. -/
def requirements (tail : List Char) (names : List String) : List Char :=
  names.foldr
    (fun ns rest => ");\ngoog.require(".toList ++ '\x27' :: (ns.toList ++ '\x27' :: rest))
    (");".toList ++ tail)

theorem requirements_nil (tail : List Char) : requirements tail [] = ");".toList ++ tail := rfl

theorem requirements_cons (tail : List Char) (ns : String) (rest : List String) :
    requirements tail (ns :: rest) = ");\ngoog.require(".toList ++
      '\x27' :: (ns.toList ++ '\x27' :: requirements tail rest) := rfl

/-- A key in front of a quote stands in front of the first quote of a text, or behind it. -/
theorem before_quote_cases {before key after x y : List Char} (hkey : '\x27' ∉ key)
    (hx : '\x27' ∉ x) (h : before ++ key ++ '\x27' :: after = x ++ '\x27' :: y) :
    (before ++ key = x ∧ after = y) ∨ ∃ before', before' ++ key ++ '\x27' :: after = y := by
  by_cases hbefore : '\x27' ∈ before
  · obtain ⟨first, more, rfl, hfirst⟩ := List.eq_append_cons_of_mem hbefore
    simp only [List.append_assoc, List.cons_append] at h
    obtain ⟨-, hy⟩ := Text.append_mark_inj hfirst hx h
    exact .inr ⟨more, by rw [← hy, List.append_assoc]⟩
  · exact .inl (Text.append_mark_inj (by simp [hbefore, hkey]) hx h)

/-- A call between the quoted names of a text is one of those that stand there. -/
theorem mem_of_requirement {tail : List Char} (htail : '\x27' ∉ tail) {names : List String}
    (hnames : ∀ n ∈ names, '\x27' ∉ n.toList ∧ ')' ∉ n.toList) {ns : String}
    (hns : '\x27' ∉ ns.toList) {p before after : List Char} (hp : '\x27' ∉ p)
    (h : before ++ "goog.require(".toList ++ '\x27' :: (ns.toList ++ '\x27' :: ')' :: after) =
      p ++ '\x27' :: requirements tail names) : ns ∈ names := by
  have hkey : '\x27' ∉ "goog.require(".toList := by decide
  induction names generalizing p before with
  | nil =>
    have hlast : '\x27' ∉ requirements tail [] := by
      simpa [requirements_nil] using htail
    rcases before_quote_cases hkey hp h with ⟨-, hrest⟩ | ⟨before', hrest⟩
    · exact absurd (by simp [← hrest]) hlast
    · exact absurd (by simp [← hrest]) hlast
  | cons n rest ih =>
    obtain ⟨⟨hquote, hbracket⟩, hrest⟩ := List.forall_mem_cons.mp hnames
    have hopening : '\x27' ∉ ");\ngoog.require(".toList := by decide
    rw [requirements_cons] at h
    rcases before_quote_cases hkey hp h with ⟨-, hname⟩ | ⟨before', hcall⟩
    · -- between a closing quote and an opening one: behind the latter stands no bracket
      obtain ⟨-, hafter⟩ := Text.append_mark_inj hns hopening hname
      cases hn : n.toList with
      | nil => simp [hn] at hafter
      | cons c cs =>
        rw [hn, List.cons_append] at hafter
        obtain ⟨rfl, -⟩ := List.cons.inj hafter
        exact absurd (by simp [hn]) hbracket
    · rcases before_quote_cases hkey hopening hcall with ⟨-, hname⟩ | ⟨before'', hcall⟩
      · obtain ⟨hsame, -⟩ := Text.append_mark_inj hns hquote hname
        rw [String.toList_inj.mp hsame]
        exact List.mem_cons_self
      · exact List.mem_cons_of_mem _ (ih hrest hquote hcall)

theorem infix_requirements (tail : List Char) {names : List String} {ns : String}
    (h : ns ∈ names) : (requirement ns).toList <:+: requirements tail names := by
  induction names with
  | nil => exact absurd h List.not_mem_nil
  | cons n rest ih =>
    rcases List.mem_cons.mp h with rfl | h
    · obtain ⟨more, hmore⟩ : ∃ more, requirements tail rest = ')' :: more := by
        cases rest <;> exact ⟨_, rfl⟩
      refine ⟨");\n".toList, more, ?_⟩
      simp [toList_requirement, requirements_cons, hmore]
    · refine (ih h).trans (List.IsSuffix.isInfix ?_)
      rw [requirements_cons]
      exact ⟨");\ngoog.require(".toList ++ '\x27' :: (n.toList ++ ['\x27']), by simp⟩

/-! ## The script of a declaration -/

/-- The names that a declaration is written with. -/
def required (decl : NsDecl) : List String :=
  (if decl.name ≠ coreNs then [coreNs] else []) ++
    (decl.runtimeDeps.filter (· ≠ coreNs)).map mungePath

theorem declarationPieces_eq (pos : Text.Position) (decl : NsDecl) :
    declarationPieces pos decl =
      [.mark pos none, .text ("goog.provide('" ++ mungePath decl.name ++ "');")] ++
        (required decl).map fun ns => Piece.text ("\ngoog.require('" ++ ns ++ "');") := by
  unfold declarationPieces required
  split <;> simp

theorem toList_emit_ns (sourceMap : Bool) (pos : Text.Position) (decl : NsDecl) (tail : List Char) :
    (emit sourceMap (.ns pos decl)).js.toList ++ tail =
      "goog.provide(".toList ++ '\x27' :: ((mungePath decl.name).toList ++
        '\x27' :: requirements tail (required decl)) := by
  have hcalls : ∀ names : List String,
      ");".toList ++ (scriptText (names.map fun ns =>
        Piece.text ("\ngoog.require('" ++ ns ++ "');"))).toList ++ tail =
      requirements tail names := by
    intro names
    induction names with
    | nil => simp [requirements_nil]
    | cons ns rest ih =>
      rw [requirements_cons, ← ih]
      simp
  change (scriptText (declarationPieces pos decl)).toList ++ tail = _
  rw [declarationPieces_eq, ← hcalls]
  simp

end LiveLisp.Script

namespace LiveLisp.Session

open Script (Requires required)

/-- The characters that the comment with a source map is written with. -/
def commentChars : List Char := Text.Base64.alphabet ++ "=\n# -.:;,".toList

theorem inlineComment_subset {fileName : String} (hfile : fileName.toList ⊆ commentChars)
    (sourceName sourceText : String) (mappings : List Script.Mapping) (formLine : Nat) :
    (SourceMap.inlineComment fileName sourceName sourceText mappings formLine).toList ⊆
      commentChars := by
  have hletters : ∀ text, (Text.Base64.encode text).toList ⊆ commentChars := by
    intro text c hc
    rw [Text.Base64.encode, String.toList_ofList] at hc
    by_contra hother
    have hfiller : '=' ∈ commentChars := by decide
    refine Text.Base64.not_mem_encodeBytes (fun h => ?_) ?_ _ hc
    · exact hother (List.mem_append_left _ h)
    · rintro rfl
      exact hother hfiller
  have hfront : "\n//# sourceURL=".toList ⊆ commentChars := by decide
  have hback : "\n//# sourceMappingURL=data:application/json;base64,".toList ⊆ commentChars := by
    decide
  delta SourceMap.inlineComment
  generalize SourceMap.inlineJson fileName sourceName sourceText mappings formLine = json
  rw [String.toList_append, String.toList_append, String.toList_append]
  exact List.append_subset.mpr ⟨List.append_subset.mpr ⟨List.append_subset.mpr ⟨hfront, hfile⟩,
    hback⟩, hletters json⟩

/-- The script of a form is what is emitted for it, and perhaps a comment. -/
theorem toList_scriptOf (options : Options) (now : Nat) (form : Form) (ast : Analysis.Ast) :
    ∃ tail, tail ⊆ commentChars ∧ (scriptOf options now form ast).toList =
      (Script.emit options.wantsSourceMap ast).js.toList ++ tail := by
  have hdigits : (toString now).toList ⊆ commentChars := by
    have hall : ∀ n < 58, 48 ≤ n → Char.ofNat n ∈ commentChars := by decide
    intro c hc
    rw [Nat.toString_eq_repr, Nat.toList_repr] at hc
    obtain ⟨hlow, hhigh⟩ : 48 ≤ c.toNat ∧ c.toNat ≤ 57 :=
      Char.isDigit_iff_toNat.mp (Text.isDigit_of_mem_toDigits_ten hc)
    have hdigit := hall c.toNat (by omega) hlow
    rwa [Char.ofNat_toNat] at hdigit
  unfold scriptOf
  dsimp only
  split
  · rw [String.toList_append]
    refine ⟨_, inlineComment_subset ?_ _ _ _ _, rfl⟩
    have hstem : "repl-".toList ⊆ commentChars := by decide
    have hend : ".js".toList ⊆ commentChars := by decide
    simp only [String.toList_append, List.append_subset]
    exact ⟨⟨hstem, hdigits⟩, hend⟩
  · exact ⟨[], List.nil_subset _, (List.append_nil _).symm⟩

/-- What the script of a declaration requires, if what it depends on has names of units. -/
theorem requires_scriptOf_iff {options : Options} {now : Nat} {form : Form} {pos : Text.Position}
    {decl : Analysis.NsDecl}
    (hdeps : ∀ dep ∈ decl.runtimeDeps, dep ≠ Analysis.coreNs →
      dep.toList.all Library.isNameChar = true) {ns : String} :
    Requires (scriptOf options now form (.ns pos decl)) ns ↔ ns ∈ required decl := by
  obtain ⟨tail, hcomment, hscript⟩ := toList_scriptOf options now form (.ns pos decl)
  have htail : '\x27' ∉ tail := fun h => absurd (hcomment h) (by decide)
  rw [Script.toList_emit_ns] at hscript
  have hnames : ∀ n ∈ required decl, '\x27' ∉ n.toList ∧ ')' ∉ n.toList := by
    intro n hn
    rcases List.mem_append.mp hn with hn | hn
    · obtain rfl : n = Analysis.coreNs := by
        split at hn
        · exact List.mem_singleton.mp hn
        · exact absurd hn List.not_mem_nil
      decide
    · obtain ⟨dep, hdep, rfl⟩ := List.mem_map.mp hn
      obtain ⟨hdep, hcore⟩ := List.mem_filter.mp hdep
      refine ⟨Munge.quote_not_mem_mungePath dep, fun h => ?_⟩
      have hbracket := Munge.mem_of_bracket_mem_mungePath h
      exact absurd (List.all_eq_true.mp (hdeps dep hdep (by simpa using hcore)) _ hbracket)
        (by decide)
  unfold Requires
  rw [hscript]
  constructor
  · rintro ⟨hns, before, after, hinfix⟩
    have hcall : before ++ "goog.require(".toList ++
        '\x27' :: (ns.toList ++ '\x27' :: ')' :: after) =
        "goog.provide(".toList ++ '\x27' :: ((Munge.mungePath decl.name).toList ++
          '\x27' :: Script.requirements tail (required decl)) := by
      rw [← hinfix]
      simp [Script.toList_requirement]
    rcases Script.before_quote_cases (by decide) (by decide) hcall with ⟨hprovide, -⟩ |
      ⟨before', hcall⟩
    · have hnot : ¬"goog.require(".toList <:+ "goog.provide(".toList := by decide
      exact absurd ⟨before, hprovide⟩ hnot
    · exact Script.mem_of_requirement htail hnames hns (Munge.quote_not_mem_mungePath _) hcall
  · intro h
    refine ⟨(hnames ns h).1,
      (Script.infix_requirements tail h).trans (List.IsSuffix.isInfix ?_)⟩
    exact ⟨"goog.provide(".toList ++ '\x27' :: ((Munge.mungePath decl.name).toList ++ ['\x27']),
      by simp⟩

end LiveLisp.Session
