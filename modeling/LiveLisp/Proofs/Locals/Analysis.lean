import LiveLisp.Proofs.Analysis.Stack
import LiveLisp.Proofs.Locals.Resolution
/-!
# Locals of analyzed forms

Analysis that keeps the names of locals and analysis that turns them into identifiers go the same
way.  In what the first one gives, every local is bound.
-/

namespace LiveLisp.Locals

open Text (Position)
open Analysis
open Munge (munge)

/-! ## Two analyses side by side -/

/-- Whatever `x` gives is in `P`, and `y` gives its image under `f`, with the same environment;
where `x` fails, `y` fails alike. -/
def Follows {α β : Type} (x : Analyzing α) (y : Analyzing β) (f : α → β) (P : α → Prop) : Prop :=
  ∀ env, match x env with
    | .ok a env' => y env = .ok (f a) env' ∧ P a
    | .error e env' => y env = .error e env'

section Follows

variable {α β γ δ : Type} {x : Analyzing α} {y : Analyzing β} {f : α → β} {P : α → Prop}
  {g : γ → δ} {Q : γ → Prop}

theorem Follows.pure {a : α} {b : β} (hb : b = f a) (ha : P a) :
    Follows (Pure.pure a) (Pure.pure b) f P := by
  intro env
  exact ⟨by rw [hb]; rfl, ha⟩

theorem Follows.throw (e : CompileError) : Follows (throw e) (throw e) f P :=
  fun _ => rfl

theorem Follows.bind (h : Follows x y f P) {k : α → Analyzing γ} {l : β → Analyzing δ}
    (hk : ∀ a, P a → Follows (k a) (l (f a)) g Q) : Follows (x >>= k) (y >>= l) g Q := by
  intro env
  have hx := h env
  show match EStateM.bind x k env with
    | .ok a env' => EStateM.bind y l env = .ok (g a) env' ∧ Q a
    | .error e env' => EStateM.bind y l env = .error e env'
  unfold EStateM.bind
  cases hrun : x env with
  | ok a env' =>
    rw [hrun] at hx
    simp only [hx.1]
    exact hk a hx.2 env'
  | error e env' =>
    rw [hrun] at hx
    simp only [hx]

/-- A step that both take alike. -/
theorem Follows.bind_same {x : Analyzing α} {k : α → Analyzing γ} {l : α → Analyzing δ}
    (hk : ∀ a, Follows (k a) (l a) g Q) : Follows (x >>= k) (x >>= l) g Q := by
  have hx : Follows x x id fun _ => True := by
    intro env
    cases hrun : x env with
    | ok a env' => exact ⟨rfl, trivial⟩
    | error e env' => rfl
  exact hx.bind fun a _ => hk a

end Follows

/-! ## Bound locals -/

theorem boundIn_text (names : List String) (text : String) : BoundIn names (.text text) := by
  simp [BoundIn, Code.free]

theorem boundIn_seq {names : List String} {c d : Code} (hc : BoundIn names c)
    (hd : BoundIn names d) : BoundIn names (.seq c d) := by
  intro u hu
  rcases List.mem_append.mp hu with hu | hu
  · exact hc u hu
  · exact hd u hu

theorem boundIn_within {names : List String} {c : Code} (hc : BoundIn names c)
    (opening closing : String) : BoundIn names (.within opening c closing) :=
  boundIn_seq (boundIn_text names opening) (boundIn_seq hc (boundIn_text names closing))

section Lists

variable {names : List String} {cs : List Code}

theorem boundIn_commaSeparated (h : ∀ c ∈ cs, BoundIn names c) :
    BoundIn names (.commaSeparated cs) := by
  induction cs with
  | nil => exact boundIn_text names ""
  | cons c cs ih =>
    have hc := h c (by simp)
    have hcs := ih fun d hd => h d (by simp [hd])
    cases cs with
    | nil => exact hc
    | cons d cs => exact boundIn_seq hc (boundIn_seq (boundIn_text names ", ") hcs)

theorem boundIn_afterCommas (h : ∀ c ∈ cs, BoundIn names c) : BoundIn names (.afterCommas cs) := by
  induction cs with
  | nil => exact boundIn_text names ""
  | cons c cs ih =>
    have hcs := ih fun d hd => h d (by simp [hd])
    exact boundIn_seq (boundIn_text names ", ") (boundIn_seq (h c (by simp)) hcs)

theorem boundIn_statements (h : ∀ c ∈ cs, BoundIn names c) : BoundIn names (.statements cs) := by
  induction cs with
  | nil => exact boundIn_text names ""
  | cons c cs ih =>
    have hcs := ih fun d hd => h d (by simp [hd])
    exact boundIn_seq (h c (by simp)) (boundIn_seq (boundIn_text names ";\n") hcs)

theorem boundIn_returning (h : ∀ c ∈ cs, BoundIn names c) : BoundIn names (.returning cs) := by
  induction cs with
  | nil => exact boundIn_text names "return null;"
  | cons c cs ih =>
    have hc := h c (by simp)
    have hcs := ih fun d hd => h d (by simp [hd])
    cases cs with
    | nil => exact boundIn_within hc "return " ";"
    | cons d cs => exact boundIn_seq hc (boundIn_seq (boundIn_text names ";\n") hcs)

theorem boundIn_block (h : ∀ c ∈ cs, BoundIn names c) : BoundIn names (.block cs) := by
  match cs with
  | [] => exact boundIn_text names "null"
  | [c] => exact h c (by simp)
  | c :: d :: cs => exact boundIn_within (boundIn_commaSeparated h) "(" ")"

theorem boundIn_cleanup (handled : Bool) (h : ∀ c ∈ cs, BoundIn names c) :
    BoundIn names (.cleanup handled cs) := by
  unfold Code.cleanup
  split
  · exact boundIn_text names ""
  · exact boundIn_within (boundIn_statements h) _ _

end Lists

/-- A function binds its names in its body. -/
theorem boundIn_func {names : List String} {name : Option String} {params : List String}
    {rest : Option String} {body : Code}
    (h : BoundIn (functionNames name params rest ++ names) body) :
    BoundIn names (.func name params rest body) := by
  intro u hu
  simp only [Code.free, List.mem_map, List.mem_filter, decide_eq_true_eq] at hu
  obtain ⟨v, ⟨hv, hout⟩, rfl⟩ := hu
  exact (List.mem_append.mp (h v hv)).resolve_left hout

/-- A handler binds its name in its body. -/
theorem boundIn_handler {names : List String} {x : String} {body : Code}
    (h : BoundIn (x :: names) body) : BoundIn names (.handler x body) := by
  intro u hu
  simp only [Code.free, List.mem_filter, decide_eq_true_eq] at hu
  exact (List.mem_cons.mp (h u hu.1)).resolve_left hu.2

/-- A variable is bound after its value. -/
theorem blockBoundIn_var {names : List String} {x : String} {init : Code} {rest : Block}
    (hinit : BoundIn names init) (hrest : BlockBoundIn (x :: names) rest) :
    BlockBoundIn names (.var x init rest) := by
  intro u hu
  simp only [Block.free, List.mem_append, List.mem_filter, decide_eq_true_eq] at hu
  rcases hu with hu | ⟨hu, hout⟩
  · exact hinit u hu
  · exact (List.mem_cons.mp (hrest u hu)).resolve_left hout

theorem mem_codes {c : Code} {xs : List Ast} : c ∈ codes xs ↔ ∃ x ∈ xs, code x = c := by
  induction xs with
  | nil => simp [codes]
  | cons x xs ih => simp [codes, ih, eq_comm]

theorem mem_codesEntries {c : Code} {es : List (Ast × Ast)} :
    c ∈ codesEntries es ↔ ∃ e ∈ es, code e.1 = c ∨ code e.2 = c := by
  induction es with
  | nil => simp [codesEntries]
  | cons e es ih => simp [codesEntries, ih, eq_comm, or_assoc]

/-- Every local of an analyzed form is bound inside it or is one of `names`. -/
def AstBoundIn (names : List String) (a : Ast) : Prop := BoundIn names (code a)

theorem boundIn_codes {names : List String} {xs : List Ast} (h : ∀ x ∈ xs, AstBoundIn names x) :
    ∀ c ∈ codes xs, BoundIn names c := by
  intro c hc
  obtain ⟨x, hx, rfl⟩ := mem_codes.mp hc
  exact h x hx

/-! ## Analysis step by step -/

/-- Analysis with the names of locals gives forms whose locals are bound, and analysis with
spelled locals gives the same forms with the locals spelled. -/
def Faithful (spell : String → String) (sub : Analyzer) : Prop :=
  ∀ ns locals form, Follows (sub ⟨ns, locals, id⟩ form) (sub ⟨ns, locals, spell⟩ form)
    (Ast.spelled spell) (AstBoundIn locals)

section Steps

variable {spell : String → String} {sub : Analyzer} {ns : String} {locals : List String}

/-- What `Follows` says of a single symbol. -/
def SameTarget (spell : String → String) (locals : List String) :
    Except CompileError Ast → Except CompileError Ast → Prop
  | .ok a, r => r = .ok (a.spelled spell) ∧ AstBoundIn locals a
  | .error e, r => r = .error e

theorem sameTarget_resolve (ns : String) (env : Env) (pos : Position) (sym : Symbol) :
    SameTarget spell locals (resolve env ⟨ns, locals, id⟩ pos sym)
      (resolve env ⟨ns, locals, spell⟩ pos sym) := by
  have hvar : ∀ target, SameTarget spell locals (.ok (.var pos target sym.name))
      (.ok (.var pos target sym.name)) := fun target => ⟨rfl, boundIn_text locals _⟩
  have hglobal : ∀ name, SameTarget spell locals (.ok (.global pos name))
      (.ok (.global pos name)) := fun name => ⟨rfl, boundIn_text locals _⟩
  unfold resolve Scope.isLocal
  cases sym.ns with
  | some target =>
    simp only
    split
    · exact hglobal sym.name
    · split
      · exact hvar _
      · split
        · exact hvar target
        · rfl
  | none =>
    simp only
    split
    · next hlocal =>
      refine ⟨rfl, ?_⟩
      simpa [AstBoundIn, code, BoundIn, Code.free] using hlocal
    · split
      · exact hglobal _
      · split
        · exact hvar _
        · exact hvar _

theorem follows_symbol (pos : Position) (sym : Symbol) :
    Follows (analyzeSymbol ⟨ns, locals, id⟩ pos sym) (analyzeSymbol ⟨ns, locals, spell⟩ pos sym)
      (Ast.spelled spell) (AstBoundIn locals) := by
  intro env
  have hres : SameTarget spell locals _ _ := sameTarget_resolve ns env pos sym
  unfold analyzeSymbol
  cases hrun : resolve env ⟨ns, locals, id⟩ pos sym with
  | ok a =>
    rw [hrun] at hres
    simp only [hres.1]
    exact ⟨trivial, hres.2⟩
  | error e =>
    rw [hrun] at hres
    change resolve env ⟨ns, locals, spell⟩ pos sym = .error e at hres
    simp only [hres]

theorem follows_all (h : Faithful spell sub) (forms : List Form) :
    Follows (analyzeAll sub ⟨ns, locals, id⟩ forms) (analyzeAll sub ⟨ns, locals, spell⟩ forms)
      (Ast.spelledAll spell) (fun xs => ∀ x ∈ xs, AstBoundIn locals x) := by
  induction forms with
  | nil => exact Follows.pure rfl (by simp)
  | cons form forms ih =>
    refine (h ns locals form).bind fun x hx => ih.bind fun xs hxs => ?_
    exact Follows.pure rfl (List.forall_mem_cons.mpr ⟨hx, hxs⟩)

theorem follows_entries (h : Faithful spell sub) (entries : List (Form × Form)) :
    Follows (analyzeEntries sub ⟨ns, locals, id⟩ entries)
      (analyzeEntries sub ⟨ns, locals, spell⟩ entries) (Ast.spelledEntries spell)
      (fun es => ∀ e ∈ es, AstBoundIn locals e.1 ∧ AstBoundIn locals e.2) := by
  induction entries with
  | nil => exact Follows.pure rfl (by simp)
  | cons entry entries ih =>
    refine (h ns locals entry.1).bind fun k hk => (h ns locals entry.2).bind fun v hv =>
      ih.bind fun es hes => ?_
    exact Follows.pure rfl (List.forall_mem_cons.mpr ⟨⟨hk, hv⟩, hes⟩)

theorem follows_option (h : Faithful spell sub) (form : Option Form) :
    Follows (analyzeOption sub ⟨ns, locals, id⟩ form) (analyzeOption sub ⟨ns, locals, spell⟩ form)
      (Ast.spelledOption spell) (fun x => BoundIn locals (codeOption x)) := by
  cases form with
  | none => exact Follows.pure rfl (boundIn_text locals "null")
  | some form =>
    refine (h ns locals form).bind fun x hx => ?_
    exact Follows.pure rfl hx

theorem follows_define (h : Faithful spell sub) (pos : Position) (args : List Form) :
    Follows (analyzeDefine sub ⟨ns, locals, id⟩ pos args)
      (analyzeDefine sub ⟨ns, locals, spell⟩ pos args) (Ast.spelled spell) (AstBoundIn locals) := by
  unfold analyzeDefine
  split
  · exact Follows.throw _
  · split
    · exact Follows.throw _
    · refine Follows.bind_same fun _ => (follows_option h _).bind fun init hinit => ?_
      exact Follows.pure rfl (boundIn_within hinit _ _)

theorem follows_cond (h : Faithful spell sub) (pos : Position) (args : List Form) :
    Follows (analyzeCond sub ⟨ns, locals, id⟩ pos args)
      (analyzeCond sub ⟨ns, locals, spell⟩ pos args) (Ast.spelled spell) (AstBoundIn locals) := by
  unfold analyzeCond
  split
  · exact Follows.throw _
  · refine (follows_option h _).bind fun e he => (h ns locals _).bind fun t ht =>
      (h ns locals _).bind fun a ha => ?_
    exact Follows.pure rfl (boundIn_seq (boundIn_within ht _ _)
      (boundIn_seq ha (boundIn_within he _ _)))

/-- The bindings of a `let` with the scope of their names. -/
theorem follows_bindings (h : Faithful spell sub) (pairs : List (Form × Form)) :
    Follows (analyzeBindings sub ⟨ns, locals, id⟩ pairs)
      (analyzeBindings sub ⟨ns, locals, spell⟩ pairs)
      (fun p => (Ast.spelledBindings spell p.1, { p.2 with spell := spell }))
      (fun p => p.2.spell = id ∧ ∀ last, BlockBoundIn p.2.locals last →
        BlockBoundIn locals (codeBindings last p.1)) := by
  induction pairs generalizing locals with
  | nil => exact Follows.pure rfl ⟨rfl, fun last hlast => hlast⟩
  | cons pair pairs ih =>
    obtain ⟨name, init⟩ := pair
    refine Follows.bind_same fun x => (h ns locals init).bind fun value hvalue =>
      ih.bind fun p hp => ?_
    refine Follows.pure rfl ⟨hp.1, fun last hlast => ?_⟩
    exact blockBoundIn_var hvalue (hp.2 last hlast)

theorem follows_bind (h : Faithful spell sub) (pos : Position) (args : List Form) :
    Follows (analyzeBind sub ⟨ns, locals, id⟩ pos args)
      (analyzeBind sub ⟨ns, locals, spell⟩ pos args) (Ast.spelled spell) (AstBoundIn locals) := by
  unfold analyzeBind
  split
  · split
    · exact Follows.throw _
    · refine (follows_bindings h _).bind fun p hp => ?_
      obtain ⟨bindings, ⟨ns', inner, spell'⟩⟩ := p
      obtain ⟨rfl, hbound⟩ := hp
      refine (follows_all h _).bind fun body hbody => ?_
      exact Follows.pure rfl (hbound _ (boundIn_returning (boundIn_codes hbody)))
  · exact Follows.throw _

theorem follows_func (h : Faithful spell sub) (pos : Position) (args : List Form) :
    Follows (analyzeFunc sub ⟨ns, locals, id⟩ pos args)
      (analyzeFunc sub ⟨ns, locals, spell⟩ pos args) (Ast.spelled spell) (AstBoundIn locals) := by
  unfold analyzeFunc
  refine Follows.bind_same fun p => ?_
  obtain ⟨name, args⟩ := p
  simp only
  split
  · exact Follows.throw _
  · refine Follows.bind_same fun p => ?_
    obtain ⟨params, rest⟩ := p
    simp only [Scope.bindAll_eq]
    refine (follows_all h _).bind fun body hbody => ?_
    refine Follows.pure (by simp [Ast.spelled]) ?_
    simp only [Option.map_id_fun, List.map_id_fun, id_eq]
    exact boundIn_func (boundIn_returning (boundIn_codes hbody))
  · exact Follows.throw _

theorem follows_assign (h : Faithful spell sub) (pos : Position) (args : List Form) :
    Follows (analyzeAssign sub ⟨ns, locals, id⟩ pos args)
      (analyzeAssign sub ⟨ns, locals, spell⟩ pos args) (Ast.spelled spell) (AstBoundIn locals) := by
  unfold analyzeAssign
  split
  · refine (h ns locals _).bind fun target htarget => ?_
    rw [Ast.isAssignable_spelled]
    split
    · refine (h ns locals _).bind fun value hvalue => ?_
      exact Follows.pure rfl (boundIn_seq (boundIn_within htarget _ _)
        (boundIn_seq hvalue (boundIn_text _ _)))
    · exact Follows.throw _
  · exact Follows.throw _

/-- Clauses of a guarded block with their locals spelled. -/
def spelledClauses (spell : String → String) (c : Clauses) : Clauses :=
  ⟨Ast.spelledHandler spell c.handler, Ast.spelledAll spell c.cleanup⟩

/-- Every local in the clauses is bound there or is one of `names`. -/
def ClausesBoundIn (names : List String) (c : Clauses) : Prop :=
  BoundIn names (codeHandler c.handler) ∧ ∀ x ∈ c.cleanup, AstBoundIn names x

theorem follows_clauses (h : Faithful spell sub) {done : Clauses}
    (hdone : ClausesBoundIn locals done) (forms : List Form) :
    Follows (analyzeClauses sub ⟨ns, locals, id⟩ done forms)
      (analyzeClauses sub ⟨ns, locals, spell⟩ (spelledClauses spell done) forms)
      (spelledClauses spell) (ClausesBoundIn locals) := by
  induction forms generalizing done with
  | nil => exact Follows.pure rfl hdone
  | cons form forms ih =>
    have hhandler : (spelledClauses spell done).handler.isNone = done.handler.isNone := by
      cases hd : done.handler <;> simp [spelledClauses, hd, Ast.spelledHandler]
    have hcleanup : (spelledClauses spell done).cleanup.isEmpty = done.cleanup.isEmpty :=
      isEmpty_spelledAll spell done.cleanup
    unfold analyzeClauses
    simp only [hhandler, hcleanup]
    split
    · split
      · refine Follows.bind_same fun x => (follows_all h _).bind fun body hbody => ?_
        exact ih ⟨boundIn_handler (boundIn_returning (boundIn_codes hbody)), hdone.2⟩
      · exact Follows.throw _
    · split
      · refine (follows_all h _).bind fun items hitems => ?_
        exact ih ⟨hdone.1, hitems⟩
      · exact Follows.throw _

theorem follows_guard (h : Faithful spell sub) (pos : Position) (args : List Form) :
    Follows (analyzeGuard sub ⟨ns, locals, id⟩ pos args)
      (analyzeGuard sub ⟨ns, locals, spell⟩ pos args) (Ast.spelled spell) (AstBoundIn locals) := by
  have hnone : ClausesBoundIn locals ⟨none, []⟩ := ⟨boundIn_text locals "", by simp⟩
  unfold analyzeGuard
  refine (follows_all h _).bind fun body hbody => (follows_clauses h hnone _).bind fun c hc => ?_
  refine Follows.pure rfl (boundIn_seq (boundIn_returning (boundIn_codes hbody)) ?_)
  exact boundIn_seq (boundIn_text _ _) (boundIn_seq hc.1
    (boundIn_cleanup _ (boundIn_codes hc.2)))

theorem follows_new (h : Faithful spell sub) (pos : Position) (args : List Form) :
    Follows (analyzeNew sub ⟨ns, locals, id⟩ pos args)
      (analyzeNew sub ⟨ns, locals, spell⟩ pos args) (Ast.spelled spell) (AstBoundIn locals) := by
  unfold analyzeNew
  split
  · exact Follows.throw _
  · refine (h ns locals _).bind fun ctor hctor => (follows_all h _).bind fun args hargs => ?_
    exact Follows.pure rfl (boundIn_seq (boundIn_within hctor _ _)
      (boundIn_seq (boundIn_commaSeparated (boundIn_codes hargs)) (boundIn_text _ _)))

theorem follows_member (h : Faithful spell sub) (pos : Position) (member : String)
    (args : List Form) :
    Follows (analyzeMember sub ⟨ns, locals, id⟩ pos member args)
      (analyzeMember sub ⟨ns, locals, spell⟩ pos member args) (Ast.spelled spell)
      (AstBoundIn locals) := by
  unfold analyzeMember
  split
  · exact Follows.throw _
  · refine (h ns locals _).bind fun target htarget => ?_
    split
    · split
      · exact Follows.throw _
      · split
        · exact Follows.throw _
        · exact Follows.pure rfl (boundIn_seq htarget (boundIn_text _ _))
    · refine (follows_all h _).bind fun args hargs => ?_
      exact Follows.pure rfl (boundIn_seq htarget
        (boundIn_within (boundIn_commaSeparated (boundIn_codes hargs)) _ _))

theorem follows_dot (h : Faithful spell sub) (pos : Position) (args : List Form) :
    Follows (analyzeDot sub ⟨ns, locals, id⟩ pos args)
      (analyzeDot sub ⟨ns, locals, spell⟩ pos args) (Ast.spelled spell) (AstBoundIn locals) := by
  unfold analyzeDot
  simp only
  split
  · exact Follows.bind_same fun name => follows_member h pos name _
  · exact Follows.bind_same fun name => follows_member h pos name _
  · exact Follows.throw _

theorem follows_special (h : Faithful spell sub) (pos : Position) (special : Special)
    (args : List Form) :
    Follows (analyzeSpecial sub ⟨ns, locals, id⟩ pos special args)
      (analyzeSpecial sub ⟨ns, locals, spell⟩ pos special args) (Ast.spelled spell)
      (AstBoundIn locals) := by
  unfold analyzeSpecial
  cases special with
  | ns => exact Follows.throw _
  | define => exact follows_define h pos args
  | block =>
    refine (follows_all h args).bind fun body hbody => ?_
    exact Follows.pure rfl (boundIn_block (boundIn_codes hbody))
  | cond => exact follows_cond h pos args
  | bind => exact follows_bind h pos args
  | func => exact follows_func h pos args
  | quote =>
    simp only
    split
    · exact Follows.pure rfl (boundIn_text _ _)
    · exact Follows.throw _
  | assign => exact follows_assign h pos args
  | throw =>
    simp only
    split
    · refine (h ns locals _).bind fun value hvalue => ?_
      exact Follows.pure rfl hvalue
    · exact Follows.throw _
  | guard => exact follows_guard h pos args
  | new => exact follows_new h pos args
  | dot => exact follows_dot h pos args

theorem follows_call (h : Faithful spell sub) (pos : Position) (head : Form) (args : List Form) :
    Follows (analyzeCall sub ⟨ns, locals, id⟩ pos head args)
      (analyzeCall sub ⟨ns, locals, spell⟩ pos head args) (Ast.spelled spell)
      (AstBoundIn locals) := by
  unfold analyzeCall
  refine (h ns locals head).bind fun callee hcallee => ?_
  rw [Ast.isInertConst_spelled]
  split
  · exact Follows.throw _
  · refine (follows_all h args).bind fun args hargs => ?_
    exact Follows.pure rfl (boundIn_seq hcallee
      (boundIn_within (boundIn_afterCommas (boundIn_codes hargs)) _ _))

theorem follows_list (h : Faithful spell sub) (pos : Position) (head : Form) (args : List Form) :
    Follows (analyzeList sub ⟨ns, locals, id⟩ pos head args)
      (analyzeList sub ⟨ns, locals, spell⟩ pos head args) (Ast.spelled spell)
      (AstBoundIn locals) := by
  have hspecial : specialHead? ⟨ns, locals, id⟩ head = specialHead? ⟨ns, locals, spell⟩ head := rfl
  have hmember : memberHead? ⟨ns, locals, id⟩ head = memberHead? ⟨ns, locals, spell⟩ head := rfl
  unfold analyzeList
  rw [hspecial, hmember]
  split
  · exact follows_special h pos _ args
  · split
    · exact follows_member h pos _ args
    · split
      · refine (follows_symbol _ _).bind fun ctor hctor =>
          (follows_all h args).bind fun args hargs => ?_
        exact Follows.pure rfl (boundIn_seq (boundIn_within hctor _ _)
          (boundIn_seq (boundIn_commaSeparated (boundIn_codes hargs)) (boundIn_text _ _)))
      · exact follows_call h pos head args

theorem faithful_with (h : Faithful spell sub) : Faithful spell (analyzeWith sub) := by
  intro ns locals form
  match form with
  | .atom pos (.symbol sym) => exact follows_symbol pos sym
  | .atom pos .nil | .atom pos (.bool _) | .atom pos (.int _) | .atom pos (.float _)
  | .atom pos (.str _) | .atom pos (.char _) | .atom pos (.keyword _) =>
    exact Follows.pure rfl (boundIn_text _ _)
  | .vector pos items | .set pos items =>
    refine (follows_all h items).bind fun xs hxs => ?_
    exact Follows.pure rfl (boundIn_within (boundIn_commaSeparated (boundIn_codes hxs)) _ _)
  | .map pos entries =>
    refine (follows_entries h entries).bind fun es hes => ?_
    refine Follows.pure rfl (boundIn_within (boundIn_commaSeparated fun c hc => ?_) _ _)
    obtain ⟨e, he, rfl | rfl⟩ := mem_codesEntries.mp hc
    · exact (hes e he).1
    · exact (hes e he).2
  | .list pos [] => exact Follows.pure rfl (boundIn_text _ _)
  | .list pos (head :: args) => exact follows_list h pos head args

/-- Analysis is faithful at every depth. -/
theorem faithful_to (depth : Nat) : Faithful spell (analyzeTo depth) := by
  induction depth with
  | zero => exact fun ns locals form => Follows.throw _
  | succ depth ih => exact faithful_with ih

theorem boundIn_topCode {a : Ast} (h : AstBoundIn [] a) : BoundIn [] (topCode a) := by
  have hseq : BoundIn [] (.seq (code a) (.text ";")) := boundIn_seq h (boundIn_text [] ";")
  cases a with
  | ns pos decl => exact boundIn_text [] _
  | _ => exact hseq

theorem follows_declaration (pos : Position) (items : List Form) :
    Follows (analyzeDeclaration pos items) (analyzeDeclaration pos items) (Ast.spelled spell)
      (AstBoundIn []) := by
  intro env
  unfold analyzeDeclaration
  cases Draft.ofItems pos items with
  | ok d => exact ⟨rfl, boundIn_text [] _⟩
  | error e => rfl

/-- Both analyses of a top-level form go the same way. -/
theorem follows_spelled (spell : String → String) (ns : String) (form : Form) :
    Follows (analyzeSpelled id ns form) (analyzeSpelled spell ns form) (Ast.spelled spell)
      (AstBoundIn []) := by
  unfold analyzeSpelled
  refine Follows.bind_same fun _ => ?_
  split
  · split
    · exact follows_declaration _ _
    · exact faithful_to _ ns [] _
  · exact faithful_to _ ns [] _

end Steps

/-! ## Scripts of forms -/

/-- The script of a top-level form as a tree with its locals. -/
def scriptTree? (ns : String) (form : Form) (env : Env) : Option Code :=
  match analyzeSpelled id ns form env with
  | .ok a _ => some (topCode a)
  | .error _ _ => none

/-- For every form that is analyzed: the script that is emitted is the text of a tree in which every
use of a local means a binding, and every use has the value of the binding that it means exactly if
no binding in the tree takes hold of a use that it does not bind. -/
theorem denotes_eq_means_iff_noCapture {ns : String} {form : Form} {env env' : Env} {ast : Ast}
    (h : analyze ns form env = .ok ast env') (sourceMap : Bool) :
    ∃ c, scriptTree? ns form env = some c ∧ c.render = (Script.emit sourceMap ast).js ∧
      (∀ u ∈ c.allUses, u.means.isSome = true) ∧
      ((∀ u ∈ c.allUses, u.denotes = u.means) ↔ c.NoCapture) := by
  have hfollows := follows_spelled munge ns form env
  rw [analyze_eq] at h
  cases hrun : analyzeSpelled id ns form env with
  | error e env'' =>
    rw [hrun] at hfollows
    change analyzeSpelled munge ns form env = .error e env'' at hfollows
    rw [hfollows] at h
    exact absurd h (by simp)
  | ok a env'' =>
    rw [hrun] at hfollows
    obtain ⟨hspelled, hbound⟩ := hfollows
    rw [hspelled] at h
    obtain ⟨rfl, -⟩ := EStateM.Result.ok.inj h
    have hclosed := boundIn_topCode hbound
    refine ⟨topCode a, by simp [scriptTree?, hrun], render_topCode sourceMap a, ?_, ?_⟩
    · exact Code.isSome_means_allUses hclosed
    · exact Code.denotes_eq_means_iff hclosed

/-- `(let [x 1 x x] x)` -/
def rebindingLet : Form :=
  .list ⟨1, 1⟩ [.symbol "let" ⟨1, 2⟩,
    .vector ⟨1, 6⟩ [.symbol "x" ⟨1, 7⟩, .atom ⟨1, 9⟩ (.int 1), .symbol "x" ⟨1, 11⟩,
      .symbol "x" ⟨1, 13⟩],
    .symbol "x" ⟨1, 16⟩]

/-- A variable that is declared twice takes hold of no use. -/
theorem rebindingLet_noCapture :
    ∃ c, scriptTree? userNs rebindingLet Env.initial = some c ∧ c.NoCapture := by
  have haccepted : analyze userNs rebindingLet Env.initial = .ok _ _ := rfl
  obtain ⟨c, htree, -, -, hiff⟩ := denotes_eq_means_iff_noCapture haccepted true
  refine ⟨c, htree, hiff.mp ?_⟩
  obtain rfl := Option.some.inj htree
  decide

/-- `(let [x 1] (let [x x] x))` -/
def nestedLet : Form :=
  .list ⟨1, 1⟩ [.symbol "let" ⟨1, 2⟩, .vector ⟨1, 6⟩ [.symbol "x" ⟨1, 7⟩, .atom ⟨1, 9⟩ (.int 1)],
    .list ⟨1, 12⟩ [.symbol "let" ⟨1, 13⟩,
      .vector ⟨1, 17⟩ [.symbol "x" ⟨1, 18⟩, .symbol "x" ⟨1, 20⟩], .symbol "x" ⟨1, 23⟩]]

/-- The inner variable takes hold of the use in its own value, which is then undefined. -/
theorem nestedLet_denotes_ne_means :
    ∃ ast env' c, analyze userNs nestedLet Env.initial = .ok ast env' ∧
      (Script.emit false ast).js = "(function ()\x7b\nvar x = 1;\nreturn (function ()\x7b\n" ++
        "var x = x;\nreturn x;\n\x7d)();\n\x7d)();" ∧
      scriptTree? userNs nestedLet Env.initial = some c ∧
      ∃ u ∈ c.allUses, u.means = some 0 ∧ u.denotes = none :=
  ⟨_, _, _, rfl, by decide +kernel, rfl, ⟨"x", some 0, none⟩, by decide, rfl, rfl⟩

end LiveLisp.Locals
