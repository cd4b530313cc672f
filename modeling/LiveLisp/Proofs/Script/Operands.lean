import LiveLisp.Munge
import LiveLisp.Proofs.Script.Brackets
import Mathlib.Logic.Relation
/-!
# Operands of a script

A script is read as the grammar of member and call expressions says: an operand begins with a name,
a number, a string or brackets, and takes accesses, indices and calls from left to right.  A number
takes as much text as it can, a point included.  Behind `new` only accesses and indices are taken,
and the first brackets of a call are the arguments of `new`.

`Operand` describes the texts that are operands as a whole, and whether they call something; the
reader reads each of them to its end, and behind `new` it stops at the first call.
-/

namespace LiveLisp.Script

/-! ## Names -/

/-- The characters of identifiers; a script may use letters of any language. -/
structure Alphabet where
  start : Char → Bool
  part : Char → Bool
  start_ascii : ∀ c, c.toNat < 128 → start c = (c.isAlpha || c = '_' || c = '$')
  part_ascii : ∀ c, c.toNat < 128 → part c = (c.isAlphanum || c = '_' || c = '$')
  part_of_start : ∀ c, start c = true → part c = true
  part_of_isLineEnd : ∀ c, isLineEnd c = true → part c = false

/-- The characters of identifiers that are written in ASCII. -/
def Alphabet.ascii : Alphabet where
  start c := decide (c.toNat < 128) && (c.isAlpha || c = '_' || c = '$')
  part c := decide (c.toNat < 128) && (c.isAlphanum || c = '_' || c = '$')
  start_ascii c hc := by simp [hc]
  part_ascii c hc := by simp [hc]
  part_of_start c hc := by
    simp only [Char.isAlphanum, Bool.and_eq_true, Bool.or_eq_true] at hc ⊢
    exact ⟨hc.1, hc.2.imp_left (Or.imp_left Or.inl)⟩
  part_of_isLineEnd c hc := by
    simp only [isLineEnd, Bool.or_eq_true, decide_eq_true_eq] at hc
    rcases hc with ((rfl | rfl) | hc) | hc
    · decide
    · decide
    · simp [hc]
    · simp [hc]

/-- Whether a word is part of the language and no operand. -/
def isKeyword (word : List Char) : Bool :=
  Munge.reserved.contains word &&
    !(["arguments", "eval", "false", "null", "this", "true"].map String.toList).contains word

variable (A : Alphabet)

def IsName (word : List Char) : Prop :=
  ∃ c cs, word = c :: cs ∧ A.start c = true ∧ ∀ d ∈ cs, A.part d = true

/-- Identifiers with dots between them. -/
def IsPath (text : List Char) : Prop :=
  ∃ first, ∃ rest : List (List Char), text = first ++ rest.flatMap ('.' :: ·) ∧ IsName A first ∧
    isKeyword first = false ∧ ∀ word ∈ rest, IsName A word

/-! ## Reading -/

/-- Past an exponent, if there is one. -/
def exponentEnd (text : List Char) : List Char :=
  match text with
  | [] => []
  | mark :: rest =>
    let digits := match rest with
      | sign :: digits => if sign = '+' ∨ sign = '-' then digits else rest
      | [] => []
    if (mark = 'e' ∨ mark = 'E') ∧ digits.head?.any Char.isDigit then
      digits.dropWhile Char.isDigit
    else text

/-- Past a fraction, if there is one. -/
def fractionEnd : List Char → List Char
  | '.' :: rest => rest.dropWhile Char.isDigit
  | text => text

/-- Past a number.  No name and no further digit may follow. -/
def numberEnd (text : List Char) : Option (List Char) :=
  let rest := exponentEnd (fractionEnd (text.dropWhile Char.isDigit))
  if rest.head?.any (fun c => A.start c || c.isDigit) then none else some rest

/-- Past what an operand begins with. -/
def primary : List Char → Option (List Char)
  | [] => none
  | c :: rest =>
    if c = '(' then closing ⟨.code, [')']⟩ rest
    else if c = '"' then closing ⟨.quoted '"', []⟩ rest
    else if c.isDigit then numberEnd A (c :: rest)
    else if A.start c then
      if isKeyword (c :: rest.takeWhile A.part) then none else some (rest.dropWhile A.part)
    else none

/-- Past an access, an index or, where calls may be taken, a call. -/
def link (calls : Bool) : List Char → Option (List Char)
  | '.' :: c :: rest => if A.start c then some (rest.dropWhile A.part) else none
  | '[' :: rest => closing ⟨.code, [']']⟩ rest
  | '(' :: rest => if calls then closing ⟨.code, [')']⟩ rest else none
  | _ => none

/-- Reading an operand at the beginning of `text` gets to `rest`. -/
def Reads (calls : Bool) (text rest : List Char) : Prop :=
  ∃ begun, primary A text = some begun ∧
    Relation.ReflTransGen (fun x y => link A calls x = some y) begun rest

/-! ## Texts that are operands -/

/-- Texts that are operands as a whole; the flag says whether they call something. -/
inductive Operand : Bool → List Char → Prop
  | path {text : List Char} (h : IsPath A text) : Operand false text
  | string (text : String) : Operand false (stringLiteral text).toList
  | number {whole rest : List Char} (hwhole : whole ≠ []) (hrest : rest ≠ [])
      (hdigits : ∀ c ∈ whole ++ rest, c.isDigit = true) : Operand false (numeral whole rest)
  | group {inner : List Char} (h : Balanced inner) : Operand false (grouped inner)
  | member {calls : Bool} {text name : List Char} (h : Operand calls text) (hname : IsPath A name) :
    Operand calls (text ++ '.' :: name)
  | call {calls : Bool} {text inner : List Char} (h : Operand calls text)
      (hinner : Balanced inner) : Operand true (called text inner)

variable {A}

/-- No identifier goes on here. -/
def Stops (A : Alphabet) (text : List Char) : Prop := ∀ c ∈ text.head?, A.part c = false

theorem stops_cons {c : Char} (rest : List Char) (h : A.part c = false) : Stops A (c :: rest) := by
  intro d hd
  obtain rfl : c = d := Option.some.inj hd
  exact h

theorem Alphabet.part_dot (A : Alphabet) : A.part '.' = false := by
  rw [A.part_ascii '.' (by decide)]
  decide

theorem Alphabet.part_bracket (A : Alphabet) : A.part '(' = false := by
  rw [A.part_ascii '(' (by decide)]
  decide

theorem toNat_of_isDigit {c : Char} (h : c.isDigit = true) : 48 ≤ c.toNat ∧ c.toNat ≤ 57 := by
  simp only [Char.isDigit, Bool.and_eq_true, decide_eq_true_eq, UInt32.le_iff_toNat_le] at h
  exact h

theorem Alphabet.part_of_isDigit (A : Alphabet) {c : Char} (h : c.isDigit = true) :
    A.part c = true := by
  have hascii := toNat_of_isDigit h
  rw [A.part_ascii c (by omega)]
  simp [Char.isAlphanum, h]

theorem Alphabet.start_of_isDigit (A : Alphabet) {c : Char} (h : c.isDigit = true) :
    A.start c = false := by
  have hascii := toNat_of_isDigit h
  have halpha : c.isAlpha = false := by
    delta Char.isAlpha Char.isUpper Char.isLower
    simp only [Bool.or_eq_false_iff, Bool.and_eq_false_iff, decide_eq_false_iff_not,
      UInt32.le_iff_toNat_le, ge_iff_le]
    change ¬ (65 ≤ c.toNat ∧ _) ∧ (¬ 97 ≤ c.toNat ∨ _)
    omega
  have hne : ∀ d : Char, 57 < d.toNat ∨ d.toNat < 48 → c ≠ d := by
    rintro d hd rfl
    omega
  rw [A.start_ascii c (by omega), halpha]
  simp [hne '_' (by decide), hne '$' (by decide)]

/-- An identifier begins neither with a bracket nor with a quote nor with a digit. -/
theorem Alphabet.start_ne (A : Alphabet) {c : Char} (h : A.start c = true) :
    c ≠ '(' ∧ c ≠ '"' ∧ c.isDigit = false := by
  have hsign : ∀ d : Char, d.toNat < 128 → (d.isAlpha || d = '_' || d = '$') = false → c ≠ d := by
    rintro d hd hfalse rfl
    rw [A.start_ascii c hd, hfalse] at h
    exact Bool.noConfusion h
  refine ⟨hsign '(' (by decide) (by decide), hsign '"' (by decide) (by decide), ?_⟩
  cases hdigit : c.isDigit with
  | false => rfl
  | true =>
    rw [A.start_of_isDigit hdigit] at h
    exact Bool.noConfusion h

theorem isPlain_of_part {c : Char} (h : A.part c = true) : isPlain c = true := by
  have hsigns : ∀ d ∈ signs, A.part d = false := by
    intro d hd
    by_cases hline : isLineEnd d = true
    · exact A.part_of_isLineEnd d hline
    · have hascii : (signs.all fun d => isLineEnd d || decide (d.toNat < 128) &&
          !(d.isAlphanum || d = '_' || d = '$')) = true := by decide
      have hd' := List.all_eq_true.mp hascii d hd
      rw [Bool.not_eq_true] at hline
      rw [hline, Bool.false_or, Bool.and_eq_true, decide_eq_true_eq, Bool.not_eq_true'] at hd'
      obtain ⟨hlt, hfalse⟩ := hd'
      rw [A.part_ascii d hlt, hfalse]
  simp only [isPlain, Bool.not_eq_true', List.contains_eq_mem, decide_eq_false_iff_not]
  intro hc
  rw [hsigns c hc] at h
  exact Bool.noConfusion h

/-- A path holds no character that means something to brackets and quotes. -/
theorem isPlain_of_isPath {text : List Char} (h : IsPath A text) :
    ∀ c ∈ text, isPlain c = true := by
  have hword : ∀ {word}, IsName A word → ∀ c ∈ word, isPlain c = true := by
    rintro word ⟨d, ds, rfl, hd, hds⟩ c hc
    rcases List.mem_cons.mp hc with rfl | hc
    · exact isPlain_of_part (A.part_of_start c hd)
    · exact isPlain_of_part (hds c hc)
  obtain ⟨first, rest, rfl, hfirst, -, hrest⟩ := h
  intro c hc
  rcases List.mem_append.mp hc with hc | hc
  · exact hword hfirst c hc
  · obtain ⟨word, hmem, hc⟩ := List.mem_flatMap.mp hc
    rcases List.mem_cons.mp hc with rfl | hc
    · decide
    · exact hword (hrest word hmem) c hc

theorem dropWhile_of_stops {word rest : List Char} {p : Char → Bool}
    (hword : ∀ c ∈ word, p c = true) (hrest : ∀ c ∈ rest.head?, p c = false) :
    (word ++ rest).dropWhile p = rest := by
  rw [List.dropWhile_append_of_pos hword]
  cases rest with
  | nil => rfl
  | cons c rest => exact List.dropWhile_cons_of_neg (by simp [hrest c rfl])

theorem takeWhile_of_stops {word rest : List Char} {p : Char → Bool}
    (hword : ∀ c ∈ word, p c = true) (hrest : ∀ c ∈ rest.head?, p c = false) :
    (word ++ rest).takeWhile p = word := by
  rw [List.takeWhile_append_of_pos hword]
  cases rest with
  | nil => simp
  | cons c rest => rw [List.takeWhile_cons_of_neg (by simp [hrest c rfl]), List.append_nil]

/-! ## Fixed names -/

def isAsciiName : List Char → Bool
  | [] => false
  | c :: cs => Alphabet.ascii.start c && cs.all Alphabet.ascii.part

/-- Whether a text is a path of ASCII characters. -/
def isAsciiPath (text : List Char) : Bool :=
  let words := text.splitOn '.'
  words.all isAsciiName && !isKeyword (words.headD [])

theorem start_of_ascii {c : Char} (h : Alphabet.ascii.start c = true) : A.start c = true := by
  obtain ⟨hascii, hletter⟩ := Bool.and_eq_true_iff.mp h
  rw [A.start_ascii c (of_decide_eq_true hascii)]
  exact hletter

theorem part_of_ascii {c : Char} (h : Alphabet.ascii.part c = true) : A.part c = true := by
  obtain ⟨hascii, hletter⟩ := Bool.and_eq_true_iff.mp h
  rw [A.part_ascii c (of_decide_eq_true hascii)]
  exact hletter

theorem isName_of_isAsciiName {word : List Char} (h : isAsciiName word = true) : IsName A word := by
  cases word with
  | nil => simp [isAsciiName] at h
  | cons c cs =>
    obtain ⟨hc, hcs⟩ := Bool.and_eq_true_iff.mp h
    exact ⟨c, cs, rfl, start_of_ascii hc,
      fun d hd => part_of_ascii (List.all_eq_true.mp hcs d hd)⟩

theorem intercalate_cons_eq_flatMap (mark : Char) (word : List Char) (words : List (List Char)) :
    [mark].intercalate (word :: words) = word ++ words.flatMap (mark :: ·) := by
  induction words generalizing word with
  | nil => simp
  | cons next words ih =>
    rw [List.intercalate_cons_cons, ih, List.flatMap_cons]
    simp

theorem isPath_of_isAsciiPath {text : List Char} (h : isAsciiPath text = true) : IsPath A text := by
  obtain ⟨first, rest, hwords⟩ := List.exists_cons_of_ne_nil (List.splitOn_ne_nil '.' text)
  have htext : ['.'].intercalate (text.splitOn '.') = text := List.intercalate_splitOn '.'
  rw [isAsciiPath, hwords] at h
  rw [hwords, intercalate_cons_eq_flatMap] at htext
  simp only [List.all_cons, List.headD_cons, Bool.and_eq_true, Bool.not_eq_true',
    List.all_eq_true] at h
  obtain ⟨⟨hfirst, hrest⟩, hkeyword⟩ := h
  exact ⟨first, rest, htext.symm, isName_of_isAsciiName hfirst, hkeyword,
    fun word hword => isName_of_isAsciiName (hrest word hword)⟩

/-! ## The reader reads operands -/

theorem stops_names {names : List (List Char)} {rest : List Char} (hrest : Stops A rest) :
    Stops A (names.flatMap ('.' :: ·) ++ rest) := by
  cases names with
  | nil => exact hrest
  | cons => exact stops_cons _ A.part_dot

/-- The access to a path is taken identifier by identifier. -/
theorem links_of_names {names : List (List Char)} (h : ∀ word ∈ names, IsName A word)
    {rest : List Char} (hrest : Stops A rest) (calls : Bool) :
    Relation.ReflTransGen (fun x y => link A calls x = some y)
      (names.flatMap ('.' :: ·) ++ rest) rest := by
  induction names with
  | nil => exact .refl
  | cons word names ih =>
    obtain ⟨c, cs, rfl, hc, hcs⟩ := h word (by simp)
    refine .head (b := names.flatMap ('.' :: ·) ++ rest) ?_ (ih fun w hw => h w (by simp [hw]))
    simp only [List.flatMap_cons, List.cons_append, List.append_assoc, link, hc, if_true]
    rw [dropWhile_of_stops hcs (stops_names hrest)]

theorem reads_path {text rest : List Char} (h : IsPath A text) (hrest : Stops A rest)
    (calls : Bool) : Reads A calls (text ++ rest) rest := by
  obtain ⟨first, names, rfl, ⟨c, cs, rfl, hc, hcs⟩, hkeyword, hnames⟩ := h
  have hstops : Stops A (names.flatMap ('.' :: ·) ++ rest) := stops_names hrest
  obtain ⟨hbracket, hquote, hdigit⟩ := A.start_ne hc
  refine ⟨names.flatMap ('.' :: ·) ++ rest, ?_, links_of_names hnames hrest calls⟩
  simp only [List.cons_append, List.append_assoc, primary, hbracket, hquote, hdigit, hc, if_false,
    if_true, takeWhile_of_stops hcs hstops, dropWhile_of_stops hcs hstops, hkeyword]
  simp

theorem isDigit_of_stops {rest : List Char} (h : Stops A rest) :
    ∀ c ∈ rest.head?, c.isDigit = false := by
  intro c hc
  cases hdigit : c.isDigit with
  | false => rfl
  | true => exact absurd (h c hc) (by simp [A.part_of_isDigit hdigit])

theorem exponentEnd_of_stops {rest : List Char} (h : Stops A rest) : exponentEnd rest = rest := by
  cases rest with
  | nil => rfl
  | cons c rest =>
    have hletter : ∀ d : Char, d.toNat < 128 → (d.isAlphanum || d = '_' || d = '$') = true →
        c ≠ d := by
      rintro d hd htrue rfl
      have hpart := h c rfl
      rw [A.part_ascii c hd, htrue] at hpart
      exact Bool.noConfusion hpart
    simp [exponentEnd, hletter 'e' (by decide) (by decide), hletter 'E' (by decide) (by decide)]

theorem start_of_stops {rest : List Char} (h : Stops A rest) :
    rest.head?.any (fun c => A.start c || c.isDigit) = false := by
  cases rest with
  | nil => rfl
  | cons c rest =>
    have hstart : A.start c = false := by
      cases hc : A.start c with
      | false => rfl
      | true => exact absurd (h c rfl) (by simp [A.part_of_start c hc])
    simp [hstart, isDigit_of_stops h c rfl]

/-- Digits, a point and digits are taken as one number. -/
theorem numberEnd_numeral {whole rest more : List Char} (hrest : rest ≠ [])
    (hdigits : ∀ c ∈ whole ++ rest, c.isDigit = true) (hmore : Stops A more) :
    numberEnd A (numeral whole rest ++ more) = some more := by
  have hwhole : ∀ c ∈ whole, c.isDigit = true := fun c hc => hdigits c (by simp [hc])
  have hfraction : ∀ c ∈ rest, c.isDigit = true := fun c hc => hdigits c (by simp [hc])
  have hpoint : ∀ c ∈ ('.' :: (rest ++ more)).head?, c.isDigit = false := by simp
  rw [numeral, if_neg hrest, List.append_assoc, List.cons_append]
  simp only [numberEnd, dropWhile_of_stops hwhole hpoint, fractionEnd,
    dropWhile_of_stops hfraction (isDigit_of_stops hmore), exponentEnd_of_stops hmore,
    start_of_stops hmore]
  simp

/-- Digits alone are taken as a number only if no point follows. -/
theorem numberEnd_digits {whole more : List Char} (hdigits : ∀ c ∈ whole, c.isDigit = true)
    (hmore : Stops A more) (hpoint : more.head? ≠ some '.') :
    numberEnd A (whole ++ more) = some more := by
  have hfraction : fractionEnd more = more := by
    unfold fractionEnd
    split
    · simp at hpoint
    · rfl
  simp only [numberEnd, dropWhile_of_stops hdigits (isDigit_of_stops hmore), hfraction,
    exponentEnd_of_stops hmore, start_of_stops hmore]
  simp

theorem primary_of_isDigit {c : Char} (hc : c.isDigit = true) (rest : List Char) :
    primary A (c :: rest) = numberEnd A (c :: rest) := by
  have hbracket : c ≠ '(' := by
    rintro rfl
    exact absurd hc (by decide)
  have hquote : c ≠ '"' := by
    rintro rfl
    exact absurd hc (by decide)
  simp [primary, hbracket, hquote, hc]

theorem Reads.trans {calls : Bool} {text middle rest : List Char} (h : Reads A calls text middle)
    (hmore : Relation.ReflTransGen (fun x y => link A calls x = some y) middle rest) :
    Reads A calls text rest := by
  obtain ⟨begun, hbegun, hlinks⟩ := h
  exact ⟨begun, hbegun, hlinks.trans hmore⟩

/-- Every operand is read to its end, where calls may be taken or none is made. -/
theorem Operand.reads {k calls : Bool} {text : List Char} (h : Operand A k text)
    (hcalls : k = true → calls = true) {rest : List Char} (hrest : Stops A rest) :
    Reads A calls (text ++ rest) rest := by
  induction h generalizing rest with
  | path h => exact reads_path h hrest calls
  | string text =>
    refine ⟨rest, ?_, .refl⟩
    rw [toList_stringLiteral, List.append_assoc]
    exact closing_stringBody text rest
  | @number whole fraction hwhole hfraction hdigits =>
    obtain ⟨d, ds, rfl⟩ := List.exists_cons_of_ne_nil hwhole
    refine ⟨rest, ?_, .refl⟩
    have hfirst : ∃ more, numeral (d :: ds) fraction ++ rest = d :: more := by
      simp [numeral, hfraction]
    obtain ⟨more, hmore⟩ := hfirst
    rw [hmore, primary_of_isDigit (hdigits d (by simp)), ← hmore]
    exact numberEnd_numeral hfraction hdigits hrest
  | group hinner =>
    refine ⟨rest, ?_, .refl⟩
    have hclosing := closing_balanced hinner rest
    simpa [grouped, called, primary] using hclosing
  | @member _ text name h hname ih =>
    obtain ⟨first, names, rfl, hfirst, -, hnames⟩ := hname
    have hlinks := links_of_names (List.forall_mem_cons.mpr ⟨hfirst, hnames⟩) hrest calls
    have hstops : Stops A ((first :: names).flatMap ('.' :: ·) ++ rest) := stops_names hrest
    have htext := ih hcalls hstops
    simpa using htext.trans hlinks
  | @call _ text inner h hinner ih =>
    have htrue : calls = true := hcalls rfl
    have htext := ih (fun _ => htrue) (stops_cons (inner ++ ')' :: rest) A.part_bracket)
    have hlink : link A calls ('(' :: (inner ++ ')' :: rest)) = some rest := by
      simp only [link, htrue, if_true]
      exact closing_balanced hinner rest
    simpa [called] using htext.trans (.single hlink)

/-- Behind `new` an operand that calls something is read up to its first call. -/
theorem Operand.stops_at_call {k : Bool} {text : List Char} (h : Operand A k text) (hk : k = true)
    (rest : List Char) :
    ∃ args, Reads A false (text ++ rest) ('(' :: args) ∧ rest.length ≤ args.length := by
  induction h generalizing rest with
  | path | string | number | group => simp at hk
  | @member _ text name h hname ih =>
    obtain ⟨args, hreads, hle⟩ := ih hk ('.' :: name ++ rest)
    refine ⟨args, by simpa using hreads, ?_⟩
    simp only [List.length_append] at hle
    omega
  | @call k text inner h hinner ih =>
    -- this call is the first one, or there is one inside of what is called
    cases k with
    | false =>
      have htext : Reads A false (text ++ '(' :: (inner ++ ')' :: rest))
          ('(' :: (inner ++ ')' :: rest)) :=
        h.reads (by simp) (stops_cons _ A.part_bracket)
      refine ⟨inner ++ ')' :: rest, by simpa [called] using htext, ?_⟩
      simp only [List.length_append, List.length_cons]
      omega
    | true =>
      obtain ⟨args, hreads, hle⟩ := ih rfl ('(' :: (inner ++ ')' :: rest))
      refine ⟨args, by simpa [called] using hreads, ?_⟩
      simp only [List.length_append, List.length_cons] at hle
      omega

end LiveLisp.Script
