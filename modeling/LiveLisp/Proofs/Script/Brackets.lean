import LiveLisp.Proofs.Form.Tree
import LiveLisp.Proofs.Script.Nesting
import LiveLisp.Proofs.Text.Digits
import LiveLisp.Script.Literal
/-!
# Brackets in scripts

A script is passed over character by character: brackets open and close, and text between quotes
counts for nothing.  Balanced text closes the brackets that it opens, so the end of a bracket is
found behind whatever balanced text stands between the two.  Literals and data are balanced.
-/

namespace LiveLisp.Script

/-! ## Passing over a script -/

/-- Characters that end a line.  String literals are taken to hold none of them, as older editions
of the language have it. -/
def isLineEnd (c : Char) : Bool :=
  c = '\n' || c = '\r' || c.toNat = 0x2028 || c.toNat = 0x2029

/-- Past one character.  Comments, patterns and templates are not passed over. -/
def Nesting.step (n : Nesting) (c : Char) : Option Nesting :=
  match n.mode with
  | .code =>
    if c = '(' then some ⟨.code, ')' :: n.closers⟩
    else if c = '[' then some ⟨.code, ']' :: n.closers⟩
    else if c = '\x7b' then some ⟨.code, '\x7d' :: n.closers⟩
    else if c = ')' ∨ c = ']' ∨ c = '\x7d' then
      match n.closers with
      | [] => none
      | closer :: closers => if closer = c then some ⟨.code, closers⟩ else none
    else if c = '"' ∨ c = '\x27' then some ⟨.quoted c, n.closers⟩
    else if c = '/' ∨ c = '\x60' then none
    else some n
  | .quoted mark =>
    if c = mark then some ⟨.code, n.closers⟩
    else if c = '\\' then some ⟨.escaped mark, n.closers⟩
    else if isLineEnd c then none
    else some n
  | .escaped mark => if isLineEnd c then none else some ⟨.quoted mark, n.closers⟩

/-- Every bracket and every quote that is opened in a script is closed. -/
abbrev Balanced (text : List Char) : Prop := Closed Nesting.step text

instance : Inward Nesting.step where
  step_append {m _ closers _ _} h outer := by
    cases m with
    | code =>
      cases closers with
      | nil => grind [Nesting.step]
      | cons closer closers => grind [Nesting.step]
    | quoted mark => grind [Nesting.step]
    | escaped mark => grind [Nesting.step]

/-- The characters that mean something to brackets and quotes. -/
def signs : List Char :=
  ['(', ')', '[', ']', '\x7b', '\x7d', '"', '\x27', '\\', '/', '\x60', '\n', '\r',
    Char.ofNat 0x2028, Char.ofNat 0x2029]

/-- Whether a character means nothing to brackets and quotes. -/
def isPlain (c : Char) : Bool := !signs.contains c

theorem ne_of_isPlain {c d : Char} (h : isPlain c) (hd : d ∈ signs) : c ≠ d := by
  rintro rfl
  simp [isPlain, hd] at h

theorem step_of_isPlain {c : Char} (h : isPlain c) (closers : List Char) :
    (Nesting.mk .code closers).step c = some ⟨.code, closers⟩ := by
  simp only [isPlain, signs, Bool.not_eq_true', List.contains_eq_mem, decide_eq_false_iff_not,
    List.mem_cons, not_or, List.not_mem_nil] at h
  simp [Nesting.step, h]

theorem isLineEnd_of_isPlain {c : Char} (h : isPlain c) : isLineEnd c = false := by
  have hcode : ∀ n, Char.ofNat n ∈ signs → c.toNat ≠ n := by
    intro n hn hcn
    exact ne_of_isPlain h hn (hcn ▸ (Char.ofNat_toNat c).symm)
  have hnewline := ne_of_isPlain h (d := '\n') (by decide)
  have hreturn := ne_of_isPlain h (d := '\r') (by decide)
  have hfirst := hcode 0x2028 (by decide)
  have hsecond := hcode 0x2029 (by decide)
  simp [isLineEnd, hnewline, hreturn, hfirst, hsecond]

theorem balanced_of_isPlain {text : List Char} (h : ∀ c ∈ text, isPlain c) : Balanced text := by
  induction text with
  | nil => rfl
  | cons c text ih =>
    rw [Balanced, Closed, walk_cons, step_of_isPlain (h c (by simp)), Option.bind_some]
    exact ih fun d hd => h d (by simp [hd])

/-! ## The end of a bracket -/

/-- What stands behind the character that closes everything. -/
def closing (n : Nesting) : List Char → Option (List Char)
  | [] => none
  | c :: rest =>
    match n.step c with
    | none => none
    | some n' => if n' = ⟨.code, []⟩ then some rest else closing n' rest

theorem closing_append {m m' : Mode} {closers closers' : List Char} {text : List Char}
    (h : walk Nesting.step ⟨m, closers⟩ text = some ⟨m', closers'⟩) {outer : List Char}
    (houter : outer ≠ []) (rest : List Char) :
    closing ⟨m, closers ++ outer⟩ (text ++ rest) = closing ⟨m', closers' ++ outer⟩ rest := by
  induction text generalizing m closers with
  | nil =>
    obtain ⟨rfl, rfl⟩ := Nesting.mk.inj (Option.some.inj h)
    rfl
  | cons c text ih =>
    rw [walk_cons] at h
    obtain ⟨⟨m₁, closers₁⟩, hstep, hrest⟩ := Option.bind_eq_some_iff.mp h
    rw [List.cons_append, closing, Inward.step_append hstep outer]
    simp only [Nesting.mk.injEq, List.append_eq_nil_iff, houter, and_false, if_false]
    exact ih hrest

/-- A bracket is closed behind balanced text. -/
theorem closing_balanced {text : List Char} (h : Balanced text) (rest : List Char) :
    closing ⟨.code, [')']⟩ (text ++ ')' :: rest) = some rest := by
  have happend := closing_append h (List.cons_ne_nil ')' []) (')' :: rest)
  rw [List.nil_append] at happend
  rw [happend]
  rfl

/-! ## Literals -/

theorem scan_quoted_plain {text : List Char} {mark : Char} (closers : List Char)
    (h : ∀ c ∈ text, c ≠ mark ∧ c ≠ '\\' ∧ isLineEnd c = false) :
    walk Nesting.step ⟨.quoted mark, closers⟩ text = some ⟨.quoted mark, closers⟩ := by
  induction text with
  | nil => rfl
  | cons c text ih =>
    obtain ⟨hmark, hescape, hline⟩ := h c (by simp)
    have hstep : (Nesting.mk (.quoted mark) closers).step c = some ⟨.quoted mark, closers⟩ := by
      simp [Nesting.step, hmark, hescape, hline]
    rw [walk_cons, hstep, Option.bind_some]
    exact ih fun d hd => h d (by simp [hd])

/-- Text that stays between the quotes of a string literal. -/
structure Quoted (text : List Char) : Prop where
  scan : ∀ closers, walk Nesting.step ⟨.quoted '"', closers⟩ text = some ⟨.quoted '"', closers⟩
  closing : ∀ rest, closing ⟨.quoted '"', []⟩ (text ++ rest) = closing ⟨.quoted '"', []⟩ rest

theorem Quoted.append {xs ys : List Char} (hxs : Quoted xs) (hys : Quoted ys) :
    Quoted (xs ++ ys) where
  scan closers := by rw [walk_append, hxs.scan, Option.bind_some, hys.scan]
  closing rest := by rw [List.append_assoc, hxs.closing, hys.closing]

theorem quoted_char {c : Char} (hquote : c ≠ '"') (hescape : c ≠ '\\')
    (hline : isLineEnd c = false) : Quoted [c] := by
  have hstep : ∀ closers, (Nesting.mk (.quoted '"') closers).step c =
      some ⟨.quoted '"', closers⟩ := by
    simp [Nesting.step, hquote, hescape, hline]
  refine ⟨fun closers => ?_, fun rest => ?_⟩
  · rw [walk_cons, hstep]
    rfl
  · rw [List.singleton_append, Script.closing, hstep]
    simp

theorem quoted_escape {c : Char} (hline : isLineEnd c = false) : Quoted ['\\', c] := by
  refine ⟨fun closers => ?_, fun rest => ?_⟩
  · simp [walk, Nesting.step, hline]
  · simp [Script.closing, Nesting.step, hline]

theorem quoted_hexDigit (n : Nat) : Quoted [hexDigit n] := by
  have hall : ∀ m < 16, Nat.digitChar m ≠ '"' ∧ Nat.digitChar m ≠ '\\' ∧
      isLineEnd (Nat.digitChar m) = false := by decide
  obtain ⟨hquote, hescape, hline⟩ := hall (n % 16) (Nat.mod_lt n (by omega))
  exact quoted_char hquote hescape hline

theorem quoted_unicodeEscape (n : Nat) : Quoted (unicodeEscape n) := by
  have hmark : Quoted ['\\', 'u'] := quoted_escape (by decide)
  exact hmark.append ((quoted_hexDigit _).append ((quoted_hexDigit _).append
    ((quoted_hexDigit _).append (quoted_hexDigit _))))

/-- What stands for a character in a string literal does not end it. -/
theorem quoted_scriptEscape (c : Char) : Quoted (scriptEscape c) := by
  unfold scriptEscape jsonEscape
  split
  · exact quoted_unicodeEscape _
  · repeat' split
    · exact quoted_escape (by decide)
    · exact quoted_escape (by decide)
    · exact quoted_escape (by decide)
    · exact quoted_escape (by decide)
    · exact quoted_escape (by decide)
    · exact quoted_escape (by decide)
    · exact quoted_escape (by decide)
    · exact quoted_unicodeEscape _
    · apply quoted_char <;> simp_all [isLineEnd]

/-- The characters between the quotes of a string literal. -/
def stringBody (text : String) : List Char := text.toList.flatMap scriptEscape

theorem toList_stringLiteral (text : String) :
    (stringLiteral text).toList = '"' :: stringBody text ++ ['"'] := by
  rw [stringLiteral, String.toList_ofList]
  rfl

theorem quoted_stringBody (text : String) : Quoted (stringBody text) := by
  unfold stringBody
  induction text.toList with
  | nil => exact ⟨fun _ => rfl, fun _ => rfl⟩
  | cons c cs ih => exact (quoted_scriptEscape c).append ih

theorem balanced_stringLiteral (text : String) : Balanced (stringLiteral text).toList := by
  have hopening : (Nesting.mk .code []).step '"' = some ⟨.quoted '"', []⟩ := by decide
  rw [toList_stringLiteral, Balanced, Closed, List.cons_append, walk_cons, hopening,
    Option.bind_some, walk_append, (quoted_stringBody text).scan]
  decide

/-- A string literal ends behind its characters. -/
theorem closing_stringBody (text : String) (rest : List Char) :
    closing ⟨.quoted '"', []⟩ (stringBody text ++ '"' :: rest) = some rest := by
  rw [(quoted_stringBody text).closing]
  rfl

theorem isPlain_of_isDigit {c : Char} (h : c.isDigit = true) : isPlain c = true := by
  have hsigns : (signs.all fun d => !d.isDigit) = true := by decide
  simp only [isPlain, Bool.not_eq_true', List.contains_eq_mem, decide_eq_false_iff_not]
  intro hc
  have hdigit := List.all_eq_true.mp hsigns c hc
  simp [h] at hdigit

/-! ## Data -/

/-- The text of a call: what is called, and what stands between the brackets. -/
def called (callee inner : List Char) : List Char := callee ++ '(' :: inner ++ [')']

def grouped (inner : List Char) : List Char := called [] inner

theorem Balanced.called {callee inner : List Char} (hcallee : Balanced callee)
    (hinner : Balanced inner) : Balanced (called callee inner) := by
  have hback : walk Nesting.step ⟨.code, [')']⟩ [')'] = some ⟨.code, []⟩ := rfl
  have hfront : walk Nesting.step ⟨.code, []⟩ ['('] = some ⟨.code, [')']⟩ := rfl
  have hgroup := hinner.between _ hfront hback
  have happend := hcallee.append hgroup
  simpa [Script.called] using happend

theorem Balanced.grouped {inner : List Char} (h : Balanced inner) : Balanced (grouped inner) :=
  Balanced.called closed_nil h

theorem isDigit_of_mem_places (s : Decimal.Scaled) :
    s.places.1 ≠ [] ∧ (∀ c ∈ s.places.1, c.isDigit = true) ∧
      ∀ c ∈ s.places.2, c.isDigit = true := by
  have hdigits : ∀ c ∈ Decimal.digitText s.digits, c.isDigit = true :=
    fun c hc => Text.isDigit_of_mem_toDigits_ten hc
  have hzeros : ∀ n, ∀ c ∈ List.replicate n '0', c.isDigit = true := by
    intro n c hc
    rw [List.eq_of_mem_replicate hc]
    rfl
  have hne : Decimal.digitText s.digits ≠ [] := Nat.toDigits_ne_nil
  unfold Decimal.Scaled.places
  simp only
  split
  · refine ⟨by simp [hne], ?_, by simp⟩
    intro c hc
    rcases List.mem_append.mp hc with hc | hc
    · exact hdigits c hc
    · exact hzeros _ c hc
  · split
    · next hlt =>
      refine ⟨?_, fun c hc => hdigits c (List.mem_of_mem_take hc),
        fun c hc => hdigits c (List.mem_of_mem_drop hc)⟩
      intro hnil
      have hlength := congrArg List.length hnil
      rw [List.length_take, List.length_nil] at hlength
      omega
    · refine ⟨by simp, by simp, ?_⟩
      intro c hc
      rcases List.mem_append.mp hc with hc | hc
      · exact hzeros _ c hc
      · exact hdigits c hc

/-- The text of a number without a sign: digits, and perhaps a point with more digits. -/
def numeral (whole rest : List Char) : List Char :=
  if rest = [] then whole else whole ++ '.' :: rest

theorem Scaled.positional_eq (s : Decimal.Scaled) :
    s.positional = numeral s.places.1 s.places.2 := by
  unfold Decimal.Scaled.positional numeral
  split
  · next h => simp [h]
  · next whole rest hrest h => rw [h, if_neg hrest]

theorem balanced_numeral {whole rest : List Char} (hwhole : ∀ c ∈ whole, c.isDigit = true)
    (hrest : ∀ c ∈ rest, c.isDigit = true) : Balanced (numeral whole rest) := by
  apply balanced_of_isPlain
  intro c hc
  unfold numeral at hc
  split at hc
  · exact isPlain_of_isDigit (hwhole c hc)
  · simp only [List.mem_append, List.mem_cons] at hc
    rcases hc with hc | rfl | hc
    · exact isPlain_of_isDigit (hwhole c hc)
    · decide
    · exact isPlain_of_isDigit (hrest c hc)

theorem balanced_sign (negative : Bool) : Balanced (if negative then ['-'] else []) := by
  cases negative <;> decide

/-- The names that build symbols and keywords, and what they are called with. -/
theorem nameCall_eq (constructor : String) (s : Symbol) :
    ∃ inner, (nameCall constructor s).toList = called constructor.toList inner ∧
      Balanced inner := by
  unfold nameCall
  cases s.ns with
  | none =>
    exact ⟨(stringLiteral s.name).toList, by simp [called], balanced_stringLiteral s.name⟩
  | some ns =>
    refine ⟨(stringLiteral ns).toList ++ ", ".toList ++ (stringLiteral s.name).toList,
      by simp [called], ?_⟩
    exact ((balanced_stringLiteral ns).append (by decide)).append (balanced_stringLiteral s.name)

theorem balanced_atomLiteral (a : Atom) : Balanced (atomLiteral a).toList := by
  have hname : ∀ constructor : String, Balanced constructor.toList → ∀ s,
      Balanced (nameCall constructor s).toList := by
    intro constructor hconstructor s
    obtain ⟨inner, heq, hinner⟩ := nameCall_eq constructor s
    rw [heq]
    exact hconstructor.called hinner
  cases a with
  | nil => decide
  | bool b => cases b <;> decide
  | int n =>
    have hdigits : Balanced (numeral (Nat.toDigits 10 n.natAbs) []) :=
      balanced_numeral (fun c hc => Text.isDigit_of_mem_toDigits_ten hc) (by simp)
    have hsign := balanced_sign (decide (n < 0))
    have htext : (atomLiteral (.int n)).toList = _ := Text.toList_toString_int n
    rw [htext]
    simpa [numeral] using hsign.append hdigits
  | float x =>
    cases x with
    | infinite negative => cases negative <;> decide
    | finite negative m e =>
      obtain ⟨-, hwhole, hrest⟩ := isDigit_of_mem_places (Decimal.shortest .up m e)
      have hdigits := balanced_numeral hwhole hrest
      simpa [atomLiteral, numberLiteral, Decimal.Double.positional, Decimal.signText,
        Scaled.positional_eq] using (balanced_sign negative).append hdigits
  | str s => exact balanced_stringLiteral s
  | char c => exact balanced_stringLiteral _
  | keyword k => exact hname _ (by decide) k
  | symbol s => exact hname _ (by decide) s

theorem balanced_dataItems {xs : List Form} (h : ∀ x ∈ xs, Balanced (datum x).toList) :
    Balanced (dataItems xs).toList := by
  induction xs with
  | nil => decide
  | cons x xs ih =>
    cases xs with
    | nil => simpa [dataItems] using h x (by simp)
    | cons y rest =>
      have hrest := ih fun z hz => h z (by simp [hz])
      have hcomma : Balanced ", ".toList := by decide
      rw [dataItems, String.toList_append, String.toList_append]
      exact ((h x (by simp)).append hcomma).append hrest

theorem balanced_dataEntries {entries : List (Form × Form)}
    (h : ∀ x ∈ entries.flatMap (fun e => [e.1, e.2]), Balanced (datum x).toList) :
    Balanced (dataEntries entries).toList := by
  have hcomma : Balanced ", ".toList := by decide
  induction entries with
  | nil => decide
  | cons e entries ih =>
    obtain ⟨k, v⟩ := e
    have hk := h k (by simp)
    have hv := h v (by simp)
    cases entries with
    | nil =>
      rw [dataEntries, String.toList_append, String.toList_append]
      exact (hk.append hcomma).append hv
    | cons e rest =>
      have hrest := ih fun z hz => h z (List.mem_append_right [k, v] hz)
      rw [dataEntries]
      simp only [String.toList_append]
      exact (((hk.append hcomma).append hv).append hcomma).append hrest

/-- The functions that build collections. -/
def builders : List String :=
  ["cljs.core.list", "cljs.core.PersistentVector.fromArray",
    "cljs.core.PersistentHashSet.fromArray", "cljs.core.PersistentArrayMap.fromArray"]

/-- Data with parts is built by a call. -/
theorem datum_eq_called {f : Form} (h : ∀ g ∈ f.parts, Balanced (datum g).toList)
    (hatom : ∀ pos a, f ≠ .atom pos a) (hempty : ∀ pos, f ≠ .list pos []) :
    ∃ builder ∈ builders, ∃ inner, (datum f).toList = called builder.toList inner ∧
      Balanced inner := by
  have harray : ∀ {items back : List Char}, Balanced items →
      walk Nesting.step ⟨.code, [']']⟩ back = some ⟨.code, []⟩ →
      Balanced (['['] ++ items ++ back) :=
    fun hitems hback => hitems.between _ rfl hback
  cases f with
  | atom pos a => exact absurd rfl (hatom pos a)
  | list pos items =>
    cases items with
    | nil => exact absurd rfl (hempty pos)
    | cons x xs =>
      refine ⟨"cljs.core.list", by simp [builders], (dataItems (x :: xs)).toList, ?_,
        balanced_dataItems h⟩
      change ("cljs.core.list(" ++ dataItems (x :: xs) ++ ")").toList = _
      simp [called]
  | vector pos items =>
    refine ⟨"cljs.core.PersistentVector.fromArray", by simp [builders],
      ['['] ++ (dataItems items).toList ++ "], true".toList, ?_,
      harray (balanced_dataItems h) (by decide)⟩
    change ("cljs.core.PersistentVector.fromArray([" ++ dataItems items ++ "], true)").toList = _
    simp [called]
  | set pos items =>
    refine ⟨"cljs.core.PersistentHashSet.fromArray", by simp [builders],
      ['['] ++ (dataItems items).toList ++ "], true".toList, ?_,
      harray (balanced_dataItems h) (by decide)⟩
    change ("cljs.core.PersistentHashSet.fromArray([" ++ dataItems items ++ "], true)").toList = _
    simp [called]
  | map pos entries =>
    refine ⟨"cljs.core.PersistentArrayMap.fromArray", by simp [builders],
      ['['] ++ (dataEntries entries).toList ++ "], true, false".toList, ?_,
      harray (balanced_dataEntries h) (by decide)⟩
    change ("cljs.core.PersistentArrayMap.fromArray([" ++ dataEntries entries ++
      "], true, false)").toList = _
    simp [called]

theorem balanced_builder {builder : String} (h : builder ∈ builders) : Balanced builder.toList := by
  have hall : ∀ b ∈ builders, Balanced b.toList := by decide +kernel
  exact hall builder h

theorem balanced_datum (f : Form) : Balanced (datum f).toList := by
  induction f using Form.induct with
  | step f ih =>
    by_cases hcalled : (∀ pos a, f ≠ .atom pos a) ∧ ∀ pos, f ≠ .list pos []
    · obtain ⟨builder, hbuilder, inner, heq, hinner⟩ := datum_eq_called ih hcalled.1 hcalled.2
      rw [heq]
      exact (balanced_builder hbuilder).called hinner
    · cases f with
      | atom pos a => exact balanced_atomLiteral a
      | list pos items =>
        cases items with
        | nil =>
          change Balanced "cljs.core.List.EMPTY".toList
          decide
        | cons => simp at hcalled
      | _ => simp at hcalled

end LiveLisp.Script
