import LiveLisp.Proofs.Analysis.Failure
import LiveLisp.Proofs.Reading.Alike
import LiveLisp.Proofs.Script.Brackets
import LiveLisp.Proofs.Script.Emission
/-!
# Data is told apart

The script that builds quoted data begins with a word, which tells what kind of data it is, and then
brackets hold the parts.  So a script determines the data that it builds, positions aside, and where
its text ends, as long as no floats and no characters are in it: those are written like integers and
strings.
-/

namespace LiveLisp.Script

open Analysis (Ast Env analyze)
open Text (Position)

/-! ## Words -/

/-- The characters of words and numbers. -/
def isWordChar (c : Char) : Bool := c.isAlphanum || c = '.' || c = '-'

/-- No word goes on at the beginning of the text. -/
def EndsWord (text : List Char) : Prop := ∀ c ∈ text.head?, isWordChar c = false

/-- A word ends where something else begins. -/
theorem word_append_inj {word word' text text' : List Char} (hword : word.all isWordChar = true)
    (hword' : word'.all isWordChar = true) (htext : EndsWord text) (htext' : EndsWord text')
    (h : word ++ text = word' ++ text') : word = word' ∧ text = text' := by
  have htake : ∀ {word text : List Char}, word.all isWordChar = true → EndsWord text →
      (word ++ text).takeWhile isWordChar = word := by
    intro word text hword htext
    rw [List.takeWhile_append_of_pos (List.all_eq_true.mp hword)]
    cases text with
    | nil => simp
    | cons c text => simp [htext c rfl]
  have heq : word = word' := by rw [← htake hword htext, h, htake hword' htext']
  subst heq
  exact ⟨rfl, List.append_cancel_left h⟩

/-- What the word at the beginning tells of data. -/
inductive Kind where
  | nil
  | bool (value : Bool)
  | int (value : Int)
  | string
  | keyword
  | symbol
  | empty
  | list
  | vector
  | set
  | map
  deriving DecidableEq

/-- The word that data of a kind begins with.  A string begins with its quote. -/
def Kind.word : Kind → String
  | .nil => "null"
  | .bool true => "true"
  | .bool false => "false"
  | .int n => toString n
  | .string => ""
  | .keyword => "cljs.core.keyword"
  | .symbol => "cljs.core.symbol"
  | .empty => "cljs.core.List.EMPTY"
  | .list => "cljs.core.list"
  | .vector => "cljs.core.PersistentVector.fromArray"
  | .set => "cljs.core.PersistentHashSet.fromArray"
  | .map => "cljs.core.PersistentArrayMap.fromArray"

theorem isWordChar_of_isDigit {c : Char} (h : c.isDigit = true) : isWordChar c = true := by
  simp [isWordChar, Char.isAlphanum, h]

theorem Kind.all_word (k : Kind) : k.word.toList.all isWordChar = true := by
  cases k with
  | int n =>
    have hsign : (if n < 0 then ['-'] else []).all isWordChar = true := by split <;> rfl
    have hdigits : (Nat.toDigits 10 n.natAbs).all isWordChar = true :=
      List.all_eq_true.mpr fun c hc =>
        isWordChar_of_isDigit (Text.isDigit_of_mem_toDigits_ten hc)
    change (toString n).toList.all isWordChar = true
    rw [Text.toList_toString_int, List.all_append, hsign, hdigits, Bool.and_self]
  | bool b => cases b <;> decide
  | _ => decide +kernel

theorem toString_int_inj {m n : Int} (h : (toString m).toList = (toString n).toList) : m = n := by
  have hdigit : ∀ k : Nat, ∀ c ∈ Nat.toDigits 10 k, c ≠ '-' := by
    rintro k c hc rfl
    exact absurd (Text.isDigit_of_mem_toDigits_ten hc) (by decide)
  rw [Text.toList_toString_int, Text.toList_toString_int] at h
  split at h <;> split at h
  · have hnat := Text.toDigits_ten_inj (List.append_cancel_left h)
    omega
  · exact absurd rfl (hdigit n.natAbs '-' (by rw [← List.nil_append (Nat.toDigits _ _), ← h]; simp))
  · exact absurd rfl (hdigit m.natAbs '-' (by rw [← List.nil_append (Nat.toDigits _ _), h]; simp))
  · have hnat := Text.toDigits_ten_inj (List.append_cancel_left h)
    omega

/-- Whether a word is a number. -/
def isNumber (word : List Char) : Bool := word.head?.any fun c => c.isDigit || c = '-'

theorem isNumber_toString (n : Int) : isNumber (toString n).toList = true := by
  obtain ⟨c, cs, heq, hc⟩ := Text.toList_toString_int_cons n
  rw [heq]
  simpa [isNumber] using hc

/-- The kind that a word tells, unless it is a number. -/
def Kind.named? (word : List Char) : Option Kind :=
  [Kind.nil, .bool true, .bool false, .string, .keyword, .symbol, .empty, .list, .vector, .set,
    .map].find? fun k => k.word.toList == word

theorem Kind.word_inj {k l : Kind} (h : k.word.toList = l.word.toList) : k = l := by
  have hnamed : ∀ k : Kind, isNumber k.word.toList = false → named? k.word.toList = some k := by
    intro k hk
    cases k with
    | int n => exact absurd (isNumber_toString n) (Bool.eq_false_iff.mp hk)
    | bool b => cases b <;> decide +kernel
    | _ => decide +kernel
  have hnumber : ∀ k : Kind, isNumber k.word.toList = true → ∃ n, k = .int n := by
    intro k hk
    cases k with
    | int n => exact ⟨n, rfl⟩
    | bool b => cases b <;> exact absurd hk (by decide)
    | _ => exact absurd hk (by decide +kernel)
  cases hk : isNumber k.word.toList with
  | false =>
    have hl : isNumber l.word.toList = false := h ▸ hk
    have hkind := hnamed k hk
    rw [h, hnamed l hl] at hkind
    exact (Option.some.inj hkind).symm
  | true =>
    obtain ⟨m, rfl⟩ := hnumber k hk
    obtain ⟨n, rfl⟩ := hnumber l (h ▸ hk)
    rw [toString_int_inj h]

/-! ## String literals -/

/-- The escapes of one character, each with the character that it stands for. -/
def charEscapes : List (Char × Char) :=
  [('"', '"'), ('\\', '\\'), ('n', '\n'), ('r', '\r'), ('t', '\t'), ('b', Char.ofNat 8),
    ('f', Char.ofNat 12)]

/-- How a character is written between quotes. -/
inductive Escaping (c : Char) : List Char → Prop
  | raw (hquote : c ≠ '"') (hescape : c ≠ '\\') : Escaping c [c]
  | short {mark : Char} (h : (mark, c) ∈ charEscapes) : Escaping c ['\\', mark]
  | code (h : c.toNat < 0x10000) : Escaping c (unicodeEscape c.toNat)

theorem escaping_scriptEscape (c : Char) : Escaping c (scriptEscape c) := by
  have hcode : ∀ n, n.isValidChar → c.toNat = n → c = Char.ofNat n := by
    rintro n - rfl
    exact (Char.ofNat_toNat c).symm
  unfold scriptEscape jsonEscape
  split
  · next h => exact .code (by omega)
  · split_ifs with hquote hescape hfeed hreturn htab hback hform hlow
    · exact .short (by simp [charEscapes, hquote])
    · exact .short (by simp [charEscapes, hescape])
    · exact .short (by simp [charEscapes, hfeed])
    · exact .short (by simp [charEscapes, hreturn])
    · exact .short (by simp [charEscapes, htab])
    · exact .short (by simp [charEscapes, hcode 8 (by decide) hback])
    · exact .short (by simp [charEscapes, hcode 12 (by decide) hform])
    · exact .code (by omega)
    · exact .raw hquote hescape

theorem hexDigit_inj {m n : Nat} (h : hexDigit m = hexDigit n) : m % 16 = n % 16 := by
  have hall : ∀ i < 16, ∀ j < 16, Nat.digitChar i = Nat.digitChar j → i = j := by decide
  exact hall _ (Nat.mod_lt m (by omega)) _ (Nat.mod_lt n (by omega)) h

theorem unicodeEscape_inj {m n : Nat} (hm : m < 0x10000) (hn : n < 0x10000)
    (h : unicodeEscape m = unicodeEscape n) : m = n := by
  simp only [unicodeEscape, List.cons.injEq, and_true, true_and] at h
  obtain ⟨hfirst, hsecond, hthird, hlast⟩ := h
  have hfirst := hexDigit_inj hfirst
  have hsecond := hexDigit_inj hsecond
  have hthird := hexDigit_inj hthird
  have hlast := hexDigit_inj hlast
  omega

/-- What stands for a character tells the character, and where its own text ends. -/
theorem scriptEscape_append_inj {c d : Char} {text text' : List Char}
    (h : scriptEscape c ++ text = scriptEscape d ++ text') : c = d ∧ text = text' := by
  have hmark : ∀ {mark e : Char}, (mark, e) ∈ charEscapes → mark ≠ 'u' := by
    rintro mark e hmem rfl
    simp [charEscapes] at hmem
  have hshort : ∀ e ∈ charEscapes, ∀ e' ∈ charEscapes, e.1 = e'.1 → e.2 = e'.2 := by decide
  have hc := escaping_scriptEscape c
  have hd := escaping_scriptEscape d
  generalize scriptEscape c = xs at h hc
  generalize scriptEscape d = ys at h hd
  cases hc with
  | raw hquote hescape =>
    cases hd with
    | raw => exact List.cons.inj h
    | short hmem => exact absurd (List.cons.inj h).1 hescape
    | code hlt => exact absurd (List.cons.inj h).1 hescape
  | @short mark hmem =>
    cases hd with
    | raw hquote hescape => exact absurd (List.cons.inj h).1.symm hescape
    | @short mark' hmem' =>
      obtain ⟨hmarks, htext⟩ := List.cons.inj (List.cons.inj h).2
      exact ⟨hshort _ hmem _ hmem' hmarks, htext⟩
    | code hlt => exact absurd (List.cons.inj (List.cons.inj h).2).1 (hmark hmem)
  | code hlt =>
    cases hd with
    | raw hquote hescape => exact absurd (List.cons.inj h).1.symm hescape
    | short hmem => exact absurd (List.cons.inj (List.cons.inj h).2).1.symm (hmark hmem)
    | code hlt' =>
      obtain ⟨hcodes, htext⟩ := List.append_inj h rfl
      exact ⟨Char.toNat_inj.mp (unicodeEscape_inj hlt hlt' hcodes), htext⟩

/-- No escape begins with a quote. -/
theorem head_scriptEscape (c : Char) : ∃ d rest, scriptEscape c = d :: rest ∧ d ≠ '"' := by
  have hc := escaping_scriptEscape c
  generalize scriptEscape c = xs at hc
  cases hc with
  | raw hquote hescape => exact ⟨c, [], rfl, hquote⟩
  | @short mark h => exact ⟨'\\', [mark], rfl, by decide⟩
  | code h => exact ⟨'\\', _, rfl, by decide⟩

/-- A string literal tells the string, and where its own text ends. -/
theorem stringLiteral_append_inj {s t : String} {text text' : List Char}
    (h : (stringLiteral s).toList ++ text = (stringLiteral t).toList ++ text') :
    s = t ∧ text = text' := by
  have hbodies : ∀ cs ds : List Char,
      cs.flatMap scriptEscape ++ '"' :: text = ds.flatMap scriptEscape ++ '"' :: text' →
        cs = ds ∧ text = text' := by
    intro cs
    induction cs with
    | nil =>
      intro ds h
      cases ds with
      | nil => exact ⟨rfl, (List.cons.inj h).2⟩
      | cons d ds =>
        obtain ⟨first, rest, heq, hne⟩ := head_scriptEscape d
        rw [List.flatMap_cons, heq] at h
        exact absurd (List.cons.inj h).1.symm hne
    | cons c cs ih =>
      intro ds h
      cases ds with
      | nil =>
        obtain ⟨first, rest, heq, hne⟩ := head_scriptEscape c
        rw [List.flatMap_cons, heq] at h
        exact absurd (List.cons.inj h).1 hne
      | cons d ds =>
        rw [List.flatMap_cons, List.flatMap_cons, List.append_assoc, List.append_assoc] at h
        obtain ⟨rfl, hrest⟩ := scriptEscape_append_inj h
        obtain ⟨rfl, htext⟩ := ih ds hrest
        exact ⟨rfl, htext⟩
  rw [toList_stringLiteral, toList_stringLiteral] at h
  simp only [List.cons_append, List.append_assoc, List.cons.injEq, true_and] at h
  obtain ⟨hchars, htext⟩ := hbodies s.toList t.toList h
  exact ⟨String.toList_inj.mp hchars, htext⟩

/-! ## Data -/

/-- No float and no character stands in the form. -/
def IsTold (f : Form) : Prop := f.All fun a => (∀ x, a ≠ .float x) ∧ ∀ c, a ≠ .char c

/-- The arguments of the call that builds a symbol or a keyword. -/
def nameParts (s : Symbol) : List Char :=
  match s.ns with
  | some ns => (stringLiteral ns).toList ++ ',' :: ' ' :: (stringLiteral s.name).toList
  | none => (stringLiteral s.name).toList

theorem toList_nameCall (constructor : String) (s : Symbol) :
    (nameCall constructor s).toList = called constructor.toList (nameParts s) := by
  unfold nameCall nameParts
  cases s.ns <;> simp [called]

theorem nameParts_append_inj {s t : Symbol} {text text' : List Char}
    (h : nameParts s ++ ')' :: text = nameParts t ++ ')' :: text') :
    s = t ∧ text = text' := by
  obtain ⟨ns, name⟩ := s
  obtain ⟨ns', name'⟩ := t
  unfold nameParts at h
  cases ns with
  | none =>
    cases ns' with
    | none =>
      obtain ⟨rfl, hrest⟩ := stringLiteral_append_inj h
      exact ⟨rfl, (List.cons.inj hrest).2⟩
    | some ns' =>
      rw [List.append_assoc] at h
      exact absurd (List.cons.inj (stringLiteral_append_inj h).2).1 (by decide)
  | some ns =>
    cases ns' with
    | none =>
      rw [List.append_assoc] at h
      exact absurd (List.cons.inj (stringLiteral_append_inj h).2).1 (by decide)
    | some ns' =>
      rw [List.append_assoc, List.append_assoc] at h
      obtain ⟨rfl, hsecond⟩ := stringLiteral_append_inj h
      simp only [List.cons_append, List.cons.injEq, true_and] at hsecond
      obtain ⟨rfl, hrest⟩ := stringLiteral_append_inj hsecond
      exact ⟨rfl, (List.cons.inj hrest).2⟩

/-- The kind of a form. -/
inductive HasKind : Form → Kind → Prop
  | nil (pos : Position) : HasKind (.atom pos .nil) .nil
  | bool (pos : Position) (b : Bool) : HasKind (.atom pos (.bool b)) (.bool b)
  | int (pos : Position) (n : Int) : HasKind (.atom pos (.int n)) (.int n)
  | string (pos : Position) (s : String) : HasKind (.atom pos (.str s)) .string
  | keyword (pos : Position) (s : Symbol) : HasKind (.atom pos (.keyword s)) .keyword
  | symbol (pos : Position) (s : Symbol) : HasKind (.atom pos (.symbol s)) .symbol
  | empty (pos : Position) : HasKind (.list pos []) .empty
  | list (pos : Position) (f : Form) (rest : List Form) : HasKind (.list pos (f :: rest)) .list
  | vector (pos : Position) (items : List Form) : HasKind (.vector pos items) .vector
  | set (pos : Position) (items : List Form) : HasKind (.set pos items) .set
  | map (pos : Position) (entries : List (Form × Form)) : HasKind (.map pos entries) .map

theorem exists_hasKind {f : Form} (h : IsTold f) : ∃ k, HasKind f k := by
  cases f with
  | atom pos a =>
    obtain ⟨hfloat, hchar⟩ := h
    cases a with
    | float x => exact absurd rfl (hfloat x)
    | char c => exact absurd rfl (hchar c)
    | nil => exact ⟨_, .nil pos⟩
    | bool b => exact ⟨_, .bool pos b⟩
    | int n => exact ⟨_, .int pos n⟩
    | str s => exact ⟨_, .string pos s⟩
    | keyword s => exact ⟨_, .keyword pos s⟩
    | symbol s => exact ⟨_, .symbol pos s⟩
  | list pos items =>
    cases items with
    | nil => exact ⟨_, .empty pos⟩
    | cons f rest => exact ⟨_, .list pos f rest⟩
  | vector pos items => exact ⟨_, .vector pos items⟩
  | set pos items => exact ⟨_, .set pos items⟩
  | map pos entries => exact ⟨_, .map pos entries⟩

/-- What stands behind the word of a form. -/
def afterWord : Form → List Char
  | .atom _ (.str s) => (stringLiteral s).toList
  | .atom _ (.keyword s) | .atom _ (.symbol s) => grouped (nameParts s)
  | .list _ (x :: xs) => grouped (dataItems (x :: xs)).toList
  | .vector _ xs | .set _ xs => grouped ('[' :: (dataItems xs).toList ++ "], true".toList)
  | .map _ es => grouped ('[' :: (dataEntries es).toList ++ "], true, false".toList)
  | _ => []

theorem HasKind.toList_datum {f : Form} {k : Kind} (h : HasKind f k) :
    (datum f).toList = k.word.toList ++ afterWord f := by
  cases h with
  | nil | int | empty => exact (List.append_nil _).symm
  | bool pos b => cases b <;> exact (List.append_nil _).symm
  | string => exact (List.nil_append _).symm
  | keyword pos s =>
    change (nameCall "cljs.core.keyword" s).toList = _
    simp [toList_nameCall, called, grouped, afterWord, Kind.word]
  | symbol pos s =>
    change (nameCall "cljs.core.symbol" s).toList = _
    simp [toList_nameCall, called, grouped, afterWord, Kind.word]
  | list pos f rest =>
    change ("cljs.core.list(" ++ dataItems (f :: rest) ++ ")").toList = _
    simp [afterWord, grouped, called, Kind.word]
  | vector pos items =>
    change ("cljs.core.PersistentVector.fromArray([" ++ dataItems items ++ "], true)").toList = _
    simp [afterWord, grouped, called, Kind.word]
  | set pos items =>
    change ("cljs.core.PersistentHashSet.fromArray([" ++ dataItems items ++ "], true)").toList = _
    simp [afterWord, grouped, called, Kind.word]
  | map pos entries =>
    change ("cljs.core.PersistentArrayMap.fromArray([" ++ dataEntries entries ++
      "], true, false)").toList = _
    simp [afterWord, grouped, called, Kind.word]

theorem endsWord_afterWord {f : Form} (text : List Char) (h : EndsWord text) :
    EndsWord (afterWord f ++ text) := by
  unfold afterWord
  split
  · rw [toList_stringLiteral]
    rintro c ⟨⟩
    rfl
  all_goals first | exact h | (rintro c ⟨⟩; rfl)

/-- Data begins with a quote or with a word. -/
theorem HasKind.datum_cons {f : Form} {k : Kind} (h : HasKind f k) :
    ∃ c cs, (datum f).toList = c :: cs ∧ (c = '"' ∨ isWordChar c = true) := by
  rw [h.toList_datum]
  cases hword : k.word.toList with
  | cons c cs =>
    have hall := k.all_word
    rw [hword, List.all_cons, Bool.and_eq_true] at hall
    exact ⟨c, cs ++ afterWord f, rfl, .inr hall.1⟩
  | nil =>
    obtain rfl : k = .string := Kind.word_inj hword
    cases h with
    | string pos s =>
      rw [List.nil_append, afterWord, toList_stringLiteral]
      exact ⟨'"', stringBody s ++ ['"'], rfl, .inl rfl⟩

/-! ## Items -/

/-- Wherever the text of the form ends a word, it tells the form, and where its own text ends. -/
def Told (f : Form) : Prop :=
  ∀ g, IsTold g → ∀ text text', EndsWord text → EndsWord text' →
    (datum f).toList ++ text = (datum g).toList ++ text' → f.same g = true ∧ text = text'

/-- What stands behind the first of several items. -/
def afterItem : List Form → List Char
  | [] => []
  | f :: rest => ',' :: ' ' :: (dataItems (f :: rest)).toList

theorem toList_dataItems (f : Form) (rest : List Form) :
    (dataItems (f :: rest)).toList = (datum f).toList ++ afterItem rest := by
  cases rest with
  | nil => exact (List.append_nil _).symm
  | cons g rest =>
    rw [dataItems, String.append_assoc, String.toList_append, String.toList_append]
    rfl

section Items

variable {closer : Char} (hcloser : closer = ')' ∨ closer = ']')
include hcloser

theorem endsWord_afterItem (rest : List Form) (text : List Char) :
    EndsWord (afterItem rest ++ closer :: text) := by
  cases rest with
  | nil =>
    rintro c ⟨⟩
    rcases hcloser with rfl | rfl <;> rfl
  | cons f rest =>
    rintro c ⟨⟩
    rfl

/-- A bracket is not the beginning of an item. -/
theorem dataItems_ne_closer {f : Form} (h : IsTold f) (rest : List Form)
    (text text' : List Char) : (dataItems (f :: rest)).toList ++ text ≠ closer :: text' := by
  obtain ⟨k, hk⟩ := exists_hasKind h
  obtain ⟨c, cs, hcons, hc⟩ := hk.datum_cons
  rw [toList_dataItems, hcons]
  intro heq
  obtain rfl : c = closer := (List.cons.inj heq).1
  rcases hcloser with rfl | rfl <;> exact absurd hc (by decide)

/-- Items up to a closing bracket tell what they are. -/
theorem dataItems_append_inj {fs gs : List Form} (hfs : ∀ f ∈ fs, IsTold f ∧ Told f)
    (hgs : ∀ g ∈ gs, IsTold g) {text text' : List Char}
    (h : (dataItems fs).toList ++ closer :: text = (dataItems gs).toList ++ closer :: text') :
    Form.sameAll fs gs = true ∧ text = text' := by
  induction fs generalizing gs with
  | nil =>
    cases gs with
    | nil => exact ⟨rfl, (List.cons.inj h).2⟩
    | cons g gs => exact absurd h.symm (dataItems_ne_closer hcloser (hgs g (by simp)) gs _ _)
  | cons f fs ih =>
    obtain ⟨⟨hf, htold⟩, hfs⟩ := List.forall_mem_cons.mp hfs
    cases gs with
    | nil => exact absurd h (dataItems_ne_closer hcloser hf fs _ _)
    | cons g gs =>
      obtain ⟨hg, hgs⟩ := List.forall_mem_cons.mp hgs
      rw [toList_dataItems, toList_dataItems, List.append_assoc, List.append_assoc] at h
      obtain ⟨hsame, hbehind⟩ := htold g hg _ _ (endsWord_afterItem hcloser fs text)
        (endsWord_afterItem hcloser gs text') h
      have hcomma : closer ≠ ',' := by rcases hcloser with rfl | rfl <;> decide
      rw [Form.sameAll, hsame, Bool.true_and]
      cases fs with
      | nil =>
        cases gs with
        | nil => exact ⟨rfl, (List.cons.inj hbehind).2⟩
        | cons g' gs => exact absurd (List.cons.inj hbehind).1 hcomma
      | cons f' fs =>
        cases gs with
        | nil => exact absurd (List.cons.inj hbehind).1.symm hcomma
        | cons g' gs => exact ih hfs hgs (List.cons.inj (List.cons.inj hbehind).2).2

end Items

/-- The entries of a map are written like its keys and values. -/
theorem dataEntries_eq (entries : List (Form × Form)) :
    dataEntries entries = dataItems (entries.flatMap fun e => [e.1, e.2]) := by
  induction entries with
  | nil => rfl
  | cons e rest ih =>
    obtain ⟨k, v⟩ := e
    cases rest with
    | nil => rfl
    | cons e rest =>
      rw [dataEntries, ih]
      simp [dataItems, String.append_assoc]

theorem sameEntries_eq (es ds : List (Form × Form)) :
    Form.sameEntries es ds =
      Form.sameAll (es.flatMap fun e => [e.1, e.2]) (ds.flatMap fun e => [e.1, e.2]) := by
  induction es generalizing ds with
  | nil => cases ds <;> rfl
  | cons e es ih =>
    obtain ⟨k, v⟩ := e
    cases ds with
    | nil => rfl
    | cons d ds =>
      rw [Form.sameEntries, ih ds]
      simp [Form.sameAll, Bool.and_assoc]

theorem IsTold.part {f g : Form} (h : IsTold f) (hg : g ∈ f.parts) : IsTold g :=
  h.of_mem_parts hg

/-- Forms of one kind are told apart by what stands behind their words. -/
theorem HasKind.same_of_afterWord {f g : Form} {k : Kind} (hf : HasKind f k) (hg : HasKind g k)
    (hfparts : ∀ x ∈ f.parts, IsTold x ∧ Told x) (hgparts : ∀ x ∈ g.parts, IsTold x)
    {text text' : List Char} (h : afterWord f ++ text = afterWord g ++ text') :
    f.same g = true ∧ text = text' := by
  have harray : ∀ {fs gs : List Form} {back : List Char}, (∀ x ∈ fs, IsTold x ∧ Told x) →
      (∀ x ∈ gs, IsTold x) →
      grouped ('[' :: (dataItems fs).toList ++ ']' :: back) ++ text =
        grouped ('[' :: (dataItems gs).toList ++ ']' :: back) ++ text' →
      Form.sameAll fs gs = true ∧ text = text' := by
    intro fs gs back hfs hgs h
    simp only [grouped, called, List.nil_append, List.cons_append, List.append_assoc,
      List.cons.injEq, true_and] at h
    obtain ⟨hsame, hrest⟩ := dataItems_append_inj (.inr rfl) hfs hgs h
    exact ⟨hsame, (List.cons.inj (List.append_cancel_left hrest)).2⟩
  cases hf with
  | nil | bool | int | empty =>
    cases hg
    exact ⟨by simp [Form.same, Form.sameAll, Atom.same], h⟩
  | string pos s =>
    cases hg with
    | string pos' t =>
      obtain ⟨rfl, htext⟩ := stringLiteral_append_inj h
      exact ⟨by simp [Form.same, Atom.same], htext⟩
  | keyword pos s =>
    cases hg with
    | keyword pos' t =>
      simp only [afterWord, grouped, called, List.nil_append, List.cons_append, List.append_assoc,
        List.cons.injEq, true_and] at h
      obtain ⟨rfl, htext⟩ := nameParts_append_inj h
      exact ⟨by simp [Form.same, Atom.same], htext⟩
  | symbol pos s =>
    cases hg with
    | symbol pos' t =>
      simp only [afterWord, grouped, called, List.nil_append, List.cons_append, List.append_assoc,
        List.cons.injEq, true_and] at h
      obtain ⟨rfl, htext⟩ := nameParts_append_inj h
      exact ⟨by simp [Form.same, Atom.same], htext⟩
  | list pos x xs =>
    cases hg with
    | list pos' y ys =>
      simp only [afterWord, grouped, called, List.nil_append, List.cons_append, List.append_assoc,
        List.cons.injEq, true_and] at h
      exact dataItems_append_inj (.inl rfl) hfparts hgparts h
  | vector pos fs =>
    cases hg with
    | vector pos' gs => exact harray hfparts hgparts h
  | set pos fs =>
    cases hg with
    | set pos' gs => exact harray hfparts hgparts h
  | map pos es =>
    cases hg with
    | map pos' ds =>
      rw [Form.same, sameEntries_eq]
      simp only [afterWord, dataEntries_eq] at h
      exact harray hfparts hgparts h

/-- Data tells what it is, and where its text ends. -/
theorem told {f : Form} (hf : IsTold f) : Told f := by
  induction f using Form.induct with
  | step f ih =>
    intro g hg text text' htext htext' h
    obtain ⟨k, hk⟩ := exists_hasKind hf
    obtain ⟨l, hl⟩ := exists_hasKind hg
    rw [hk.toList_datum, hl.toList_datum, List.append_assoc, List.append_assoc] at h
    obtain ⟨hword, hafter⟩ := word_append_inj k.all_word l.all_word
      (endsWord_afterWord text htext) (endsWord_afterWord text' htext') h
    obtain rfl := Kind.word_inj hword
    have hparts : ∀ x ∈ f.parts, IsTold x ∧ Told x :=
      fun x hx => ⟨hf.part hx, ih x hx (hf.part hx)⟩
    exact hk.same_of_afterWord hl hparts (fun x hx => hg.part hx) hafter

/-! ## Scripts of quoted data -/

theorem dataItems_congr {fs gs : List Form}
    (h : ∀ f ∈ fs, ∀ g, f.same g = true → datum f = datum g) (hsame : Form.sameAll fs gs = true) :
    dataItems fs = dataItems gs := by
  induction fs generalizing gs with
  | nil =>
    cases gs with
    | nil => rfl
    | cons => contradiction
  | cons f fs ih =>
    cases gs with
    | nil => contradiction
    | cons g gs =>
      obtain ⟨hf, hfs⟩ := List.forall_mem_cons.mp h
      rw [Form.sameAll, Bool.and_eq_true] at hsame
      have hitem := hf g hsame.1
      have hrest := ih hfs hsame.2
      cases fs with
      | nil =>
        cases gs with
        | nil => exact hitem
        | cons => exact absurd hsame.2 (by simp [Form.sameAll])
      | cons f' fs =>
        cases gs with
        | nil => exact absurd hsame.2 (by simp [Form.sameAll])
        | cons g' gs => rw [dataItems, dataItems, hitem, hrest]

/-- Equal data is built by equal scripts, if there are no floats in it: negative zero is written
in its own way. -/
theorem datum_eq_of_same {f g : Form} (hf : f.FloatFree) (h : f.same g = true) :
    datum f = datum g := by
  induction f using Form.induct generalizing g with
  | step f ih =>
    have hparts : ∀ x ∈ f.parts, ∀ y, x.same y = true → datum x = datum y :=
      fun x hx y hy => ih x hx (hf.of_mem_parts hx) hy
    cases f with
    | atom pos a =>
      cases g with
      | atom pos' b =>
        have hfloat : ∀ x, a ≠ .float x := hf
        have heq : a = b := by
          cases a with
          | float x => exact absurd rfl (hfloat x)
          | _ => simpa [Form.same, Atom.same] using h
        exact congrArg atomLiteral heq
      | _ => exact absurd h (by simp [Form.same])
    | list pos fs =>
      cases g with
      | list pos' gs =>
        have hsame : Form.sameAll fs gs = true := h
        have hitems := dataItems_congr hparts hsame
        cases fs with
        | nil =>
          cases gs with
          | nil => rfl
          | cons => exact absurd hsame (by simp [Form.sameAll])
        | cons f fs =>
          cases gs with
          | nil => exact absurd hsame (by simp [Form.sameAll])
          | cons g gs => exact congrArg ("cljs.core.list(" ++ · ++ ")") hitems
      | _ => exact absurd h (by simp [Form.same])
    | vector pos fs =>
      cases g with
      | vector pos' gs =>
        exact congrArg ("cljs.core.PersistentVector.fromArray([" ++ · ++ "], true)")
          (dataItems_congr hparts h)
      | _ => exact absurd h (by simp [Form.same])
    | set pos fs =>
      cases g with
      | set pos' gs =>
        exact congrArg ("cljs.core.PersistentHashSet.fromArray([" ++ · ++ "], true)")
          (dataItems_congr hparts h)
      | _ => exact absurd h (by simp [Form.same])
    | map pos es =>
      cases g with
      | map pos' ds =>
        have hitems : dataEntries es = dataEntries ds := by
          rw [Form.same, sameEntries_eq] at h
          rw [dataEntries_eq, dataEntries_eq]
          exact dataItems_congr hparts h
        exact congrArg ("cljs.core.PersistentArrayMap.fromArray([" ++ · ++ "], true, false)") hitems
      | _ => exact absurd h (by simp [Form.same])

theorem IsTold.floatFree {f : Form} (h : IsTold f) : f.FloatFree := by
  induction f using Form.induct with
  | step f ih =>
    have hparts : ∀ x ∈ f.parts, x.FloatFree := fun x hx => ih x hx (h.part hx)
    cases f with
    | atom pos a => exact h.1
    | list | vector | set => exact Form.allItems_iff.mpr hparts
    | map => exact Form.allEntries_iff.mpr hparts

/-- The form that quotes `f`, at `p`, with its head at `q`. -/
def quotation (p q : Position) (f : Form) : Form := .list p [.symbol "quote" q, f]

/-- Whatever is quoted, the quotation can be compiled. -/
theorem analyze_quotation (ns : String) (env : Env) (p q : Position) (f : Form) :
    analyze ns (quotation p q f) env = .ok (.quote p f) (env.register ns) := by
  rcases Analysis.analyze_top_cases ns (quotation p q f) env with
    ⟨_, _, _, heq, hheaded, -⟩ | ⟨-, hrun⟩
  · have hhead : (Symbol.ofText "quote").isPlain "ns" = false := by decide
    exact absurd (hhead.symm.trans hheaded) (by decide)
  · exact hrun

/-- The text of a quotation. -/
theorem toList_emit_quote (sourceMap : Bool) (p : Position) (f : Form) :
    (emit sourceMap (.quote p f)).js.toList = (datum f).toList ++ [';'] := by
  rw [toList_emit sourceMap rfl, chars_eq]
  simp [template, Segment.chars]

/-- Quotations of data without floats and characters can be compiled anywhere, and their scripts
are the same text exactly if the data is the same, positions aside. -/
theorem quotation_text_iff {f g : Form} (hf : IsTold f) (hg : IsTold g) (sourceMap : Bool)
    (ns ns' : String) (env env' : Env) (p q p' q' : Position) :
    ∃ a b, analyze ns (quotation p q f) env = .ok a (env.register ns) ∧
      analyze ns' (quotation p' q' g) env' = .ok b (env'.register ns') ∧
      ((emit sourceMap a).js = (emit sourceMap b).js ↔ f.same g = true) := by
  have htext : (emit sourceMap (.quote p f)).js = (emit sourceMap (.quote p' g)).js ↔
      f.same g = true := by
    rw [← String.toList_inj, toList_emit_quote, toList_emit_quote]
    constructor
    · intro h
      have hend : EndsWord [';'] := by
        rintro c ⟨⟩
        rfl
      exact (told hf g hg [';'] [';'] hend hend h).1
    · intro h
      rw [datum_eq_of_same hf.floatFree h]
  exact ⟨.quote p f, .quote p' g, analyze_quotation ns env p q f,
    analyze_quotation ns' env' p' q' g, htext⟩

/-- A list of a qualified symbol and a vector, and the list with the string in place of the symbol:
their quotations compile to different texts. -/
theorem quotation_text_symbol_string :
    let items : Form := .vector ⟨1, 7⟩ [.atom ⟨1, 8⟩ (.int (-1)), .str "\u2028\"" ⟨1, 11⟩]
    let f : Form := .list ⟨1, 2⟩ [.symbol "a/b" ⟨1, 3⟩, items]
    let g : Form := .list ⟨1, 2⟩ [.str "a/b" ⟨1, 3⟩, items]
    IsTold f ∧ IsTold g ∧ ∃ a b,
      analyze "m" (quotation ⟨1, 1⟩ ⟨1, 1⟩ f) .initial = .ok a (Env.initial.register "m") ∧
        analyze "m" (quotation ⟨1, 1⟩ ⟨1, 1⟩ g) .initial = .ok b (Env.initial.register "m") ∧
        (emit true a).js ≠ (emit true b).js := by
  intro items f g
  have hitems : IsTold items := by simp [items, IsTold, Form.All, Form.AllItems, Form.str]
  have hf : IsTold f := ⟨by simp [Form.symbol, Form.All], hitems, trivial⟩
  have hg : IsTold g := ⟨by simp [Form.str, Form.All], hitems, trivial⟩
  obtain ⟨a, b, ha, hb, htext⟩ :=
    quotation_text_iff hf hg true "m" "m" .initial .initial ⟨1, 1⟩ ⟨1, 1⟩ ⟨1, 1⟩ ⟨1, 1⟩
  refine ⟨hf, hg, a, b, ha, hb, fun h => ?_⟩
  exact absurd (htext.mp h) (by decide)

end LiveLisp.Script
