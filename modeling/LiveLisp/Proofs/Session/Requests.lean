import LiveLisp.Proofs.Analysis.Names
import LiveLisp.Proofs.Backend.Framing
import LiveLisp.Proofs.Text.Utf8
/-!
# One request for one script

On the wire a request ends at the first terminator, which is the byte of the character U+0000.  A
script holds this character exactly if a name in it does, since data is escaped and names are not.
So a script is one request as long as the character gets into no name, and it gets there only from
the source or from what the session knows.
-/

namespace LiveLisp.Backend

open Text

/-- The character whose byte is the terminator. -/
def nul : Char := '\x00'

/-- The requests that the other side finds in what it was sent: one for each terminator. -/
def requestsOf (bytes : List UInt8) : List (List UInt8) := (bytes.splitOn terminator).dropLast

theorem terminator_mem_encode_iff (code : String) :
    terminator ∈ Utf8.encode code ↔ nul ∈ code.toList :=
  Utf8.mem_encode_iff (d := nul) (by decide) code

theorem count_requestFrame_eq_one_iff (code : String) :
    (requestFrame code).count terminator = 1 ↔ nul ∉ code.toList := by
  have hcount : (requestFrame code).count terminator =
      (Utf8.encode code).count terminator + 1 := by
    rw [requestFrame, List.count_append, List.count_singleton_self]
  rw [hcount, ← terminator_mem_encode_iff, ← List.count_eq_zero]
  omega

theorem requestsOf_requestFrame_iff (code : String) :
    requestsOf (requestFrame code) = [Utf8.encode code] ↔ nul ∉ code.toList := by
  rw [← terminator_mem_encode_iff, requestsOf, requestFrame]
  generalize Utf8.encode code = bytes
  constructor
  · -- up to the first terminator there is less than the whole
    intro h hmem
    obtain ⟨first, rest, rfl, hfirst⟩ := List.eq_append_cons_of_mem hmem
    rw [List.append_assoc, List.cons_append, List.splitOn_append_cons_self_of_not_mem hfirst,
      List.dropLast_cons_of_ne_nil (List.splitOn_ne_nil _ _)] at h
    have hlength := congrArg List.length (List.cons.inj h).1
    simp at hlength
  · intro h
    rw [List.splitOn_append_cons_self_of_not_mem h]
    rfl

end LiveLisp.Backend

namespace LiveLisp.Session

open Analysis (Env analyze userNs)
open Backend (nul requestFrame requestsOf terminator)
open Script (Everywhere NamesAvoid isControl not_mem_of_filter)

/-! ## Scripts -/

theorem not_mem_scriptOf_iff {c : Char} (hc : isControl c = true) (options : Options) (now : Nat)
    (form : Form) (ast : Analysis.Ast) :
    c ∉ (scriptOf options now form ast).toList ↔ Everywhere (NamesAvoid c) ast := by
  obtain ⟨tail, hcomment, hscript⟩ := toList_scriptOf options now form ast
  have hplain : c ∉ commentChars := not_mem_of_filter hc (by decide)
  have htail : c ∉ tail := fun h => hplain (hcomment h)
  rw [← Script.not_mem_emit_iff hc options.wantsSourceMap, hscript, List.mem_append]
  exact not_congr (or_iff_left htail)

/-- The words that a form may be wrapped in. -/
def wrapperWords : List String :=
  ["set!", "*1", "*2", "*3", "*e", "pr-str", "try", "let", "catch", "throw", "ret__auto__",
    "e__auto__"]

/-- What a form is wrapped in has no other characters than these words. -/
theorem avoids_apply {c : Char} (hc : ∀ word ∈ wrapperWords, c ∉ word.toList) (wrap : Wrap)
    {form : Form} (h : form.Avoids c) : (wrap.apply form).Avoids c := by
  have hsymbol : ∀ {word : String}, word ∈ wrapperWords → ∀ p, (Form.symbol word p).Avoids c := by
    rintro word hword p s ⟨⟩
    exact Symbol.avoids_ofChars (hc word hword)
  have hassignment : ∀ {target value : String}, target ∈ wrapperWords → value ∈ wrapperWords →
      ∀ p, (Wrap.assignment p target value).Avoids c :=
    fun htarget hvalue p => ⟨hsymbol (by decide) p, hsymbol htarget p, hsymbol hvalue p, trivial⟩
  have hprinting : ∀ {value : Form}, value.Avoids c → ∀ p, (Wrap.printing p value).Avoids c :=
    fun hvalue p => ⟨hsymbol (by decide) p, hvalue, trivial⟩
  cases wrap with
  | identity => exact h
  | printOnly => exact hprinting h form.pos
  | record =>
    have hvalue : (Form.symbol "ret__auto__" form.pos).Avoids c := hsymbol (by decide) form.pos
    have hfailure : (Form.symbol "e__auto__" form.pos).Avoids c := hsymbol (by decide) form.pos
    refine ⟨hsymbol (by decide) form.pos, ⟨hsymbol (by decide) form.pos, ⟨hvalue, h, trivial⟩,
      hassignment (by decide) (by decide) form.pos, hassignment (by decide) (by decide) form.pos,
      hassignment (by decide) (by decide) form.pos, hprinting hvalue form.pos, trivial⟩,
      ⟨hsymbol (by decide) form.pos, ?_, hfailure, hassignment (by decide) (by decide) form.pos,
      ⟨hsymbol (by decide) form.pos, hfailure, trivial⟩, trivial⟩, trivial⟩
    rintro s ⟨⟩

/-- The script of a form is one request exactly if it does not hold U+0000, and that is exactly if
no name in it does.  If neither the text that the form was read from nor what is known about the
current namespace holds the character, the script does not. -/
theorem single_request_iff {text : String} {forms : List Form} {form : Form}
    (hread : Reading.readAll text = .ok forms) (hform : form ∈ forms) (wrap : Wrap) {ns : String}
    {env env' : Env} {ast : Analysis.Ast}
    (hanalyze : analyze ns (wrap.apply form) env = .ok ast env') (options : Options) (now : Nat) :
    let code := scriptOf options now form ast
    (nul ∉ code.toList ↔ Everywhere (NamesAvoid nul) ast) ∧
      ((requestFrame code).count terminator = 1 ↔ nul ∉ code.toList) ∧
      (requestsOf (requestFrame code) = [Text.Utf8.encode code] ↔ nul ∉ code.toList) ∧
      (nul ∉ text.toList → env.Avoids nul ns → nul ∉ code.toList) := by
  have hnul : isControl nul = true := by decide
  have hscript := not_mem_scriptOf_iff hnul options now form ast
  refine ⟨hscript, Backend.count_requestFrame_eq_one_iff _,
    Backend.requestsOf_requestFrame_iff _, fun htext henv => hscript.mpr ?_⟩
  have havoids : form.Avoids nul :=
    Reading.avoids_of_readAll (by decide) (by decide) (by decide) htext hread form hform
  exact Analysis.clear_of_analyze hnul henv (avoids_apply (by decide) wrap havoids) hanalyze

/-! ## Names and data that hold the character -/

/-- The script of the first form of a text, if it is the text of a file that is loaded first. -/
def firstScript? (text : String) : Option String :=
  match Reading.readAll text with
  | .ok (form :: _) =>
    match analyze userNs (Wrap.identity.apply form) .initial with
    | .ok ast _ => some (scriptOf .none 0 form ast)
    | .error .. => none
  | _ => none

theorem exists_of_firstScript? {text code : String} (h : firstScript? text = some code) :
    ∃ forms form ast env', Reading.readAll text = .ok forms ∧ form ∈ forms ∧
      analyze userNs (Wrap.identity.apply form) .initial = .ok ast env' ∧
      code = scriptOf .none 0 form ast := by
  unfold firstScript? at h
  split at h
  · next form rest hread =>
    split at h
    · next ast env' hanalyze =>
      exact ⟨form :: rest, form, ast, env', hread, List.mem_cons_self, hanalyze,
        (Option.some.inj h).symm⟩
    · contradiction
  · contradiction

/-- A definition without the character, and one whose value is a string that holds it. -/
theorem single_request_samples :
    (∃ code, firstScript? "(def a 1)" = some code ∧ nul ∉ code.toList ∧
        requestsOf (requestFrame code) = [Text.Utf8.encode code]) ∧
      ∃ code, firstScript? "(def a \"\x00\")" = some code ∧
        (requestFrame code).count terminator = 1 := by
  constructor
  · have hfirst : (firstScript? "(def a 1)").isSome = true := by decide +kernel
    obtain ⟨code, hcode⟩ := Option.isSome_iff_exists.mp hfirst
    obtain ⟨forms, form, ast, env', hread, hform, hanalyze, rfl⟩ := exists_of_firstScript? hcode
    obtain ⟨-, -, hrequests, hclean⟩ := single_request_iff hread hform _ hanalyze .none 0
    have henv : Env.initial.Avoids nul userNs := ⟨by decide, by decide⟩
    have hnul := hclean (by decide) henv
    exact ⟨_, hcode, hnul, hrequests.mpr hnul⟩
  · have hfirst : (firstScript? "(def a \"\x00\")").any (fun code => nul ∉ code.toList) =
        true := by decide +kernel
    obtain ⟨code, hcode, hclean⟩ := (Option.any_eq_true _ _).mp hfirst
    obtain ⟨forms, form, ast, env', hread, hform, hanalyze, rfl⟩ := exists_of_firstScript? hcode
    obtain ⟨-, hcount, -, -⟩ := single_request_iff hread hform _ hanalyze .none 0
    exact ⟨_, hcode, hcount.mpr (of_decide_eq_true hclean)⟩

/-- A name is written with the character: `(def a 1)` with U+0000 behind the `a` is sent as two
requests. -/
theorem nul_in_name_ends_request :
    ¬∀ (text : String) (forms : List Form) (form : Form) (wrap : Wrap) (ns : String)
      (env env' : Env) (ast : Analysis.Ast) (options : Options) (now : Nat),
      Reading.readAll text = .ok forms → form ∈ forms →
        analyze ns (wrap.apply form) env = .ok ast env' →
        nul ∉ (scriptOf options now form ast).toList ∧
          (requestFrame (scriptOf options now form ast)).count terminator = 1 := by
  intro h
  have hfirst : (firstScript? "(def a\x00 1)").any (fun code => nul ∈ code.toList) = true := by
    decide +kernel
  obtain ⟨code, hcode, hheld⟩ := (Option.any_eq_true _ _).mp hfirst
  obtain ⟨forms, form, ast, env', hread, hform, hanalyze, rfl⟩ := exists_of_firstScript? hcode
  exact (h _ forms form _ _ _ env' ast .none 0 hread hform hanalyze).1 (of_decide_eq_true hheld)

end LiveLisp.Session
