import LiveLisp.Files.Tree
/-!
# Paths of files below a directory

Going down from a directory by the names of files adds these names to its components, however the
directory is spelled.  Resolving the dots of a path never makes it longer, and leaves a path alone
that is made of names of files.
-/

namespace LiveLisp.Files


/-! ## Names -/

/-- Names that a file or a directory may have. -/
def IsFileName (name : String) : Prop :=
  name ≠ "" ∧ name ≠ "." ∧ name ≠ ".." ∧ '/' ∉ name.toList

instance (name : String) : Decidable (IsFileName name) := inferInstanceAs (Decidable (_ ∧ _))

/-- Everything in a tree has a name that a file may have. -/
def Tree.Named (t : Tree) : Prop := ∀ e ∈ t.nodes.entries, ∀ name ∈ e.1, IsFileName name

instance (t : Tree) : Decidable t.Named := inferInstanceAs (Decidable (∀ e ∈ t.nodes.entries, _))

theorem IsFileName.isIdle {name : String} (h : IsFileName name) :
    Pathname.isIdle name.toList = false := by
  have hempty : name.toList ≠ [] := by simpa using h.1
  have hcurrent : name.toList ≠ ['.'] := fun heq => h.2.1 (String.toList_inj.mp heq)
  simp [Pathname.isIdle, hempty, hcurrent]

theorem IsFileName.ne_parent {name : String} (h : IsFileName name) : name.toList ≠ ['.', '.'] :=
  fun heq => h.2.2.1 (String.toList_inj.mp heq)

theorem IsFileName.componentOf {name : String} (h : IsFileName name) :
    Pathname.componentOf name.toList = .name name := by
  rw [Pathname.componentOf, if_neg h.ne_parent, String.ofList_toList]

/-! ## Going down -/

namespace Pathname

/-- Behind a slash come the pieces that count. -/
theorem components_append (text more : List Char) :
    (Pathname.mk (String.ofList (text ++ '/' :: more))).components =
      (Pathname.mk (String.ofList (text ++ ['/']))).components ++
        ((more.splitOn '/').filter fun s => !isIdle s).map componentOf := by
  have hhead : (text ++ '/' :: more).head? = (text ++ ['/']).head? := by
    cases text <;> rfl
  have hend : (List.splitOn '/' []).filter (fun s => !isIdle s) = [] := rfl
  obtain ⟨piece, pieces, hpieces⟩ := List.exists_cons_of_ne_nil (List.splitOn_ne_nil '/' text)
  unfold components isAbsolute
  simp only [String.toList_ofList, hhead, List.splitOn_append_cons_self, hpieces, List.cons_append,
    List.head?_cons]
  rw [← List.cons_append, ← List.cons_append, List.filter_append, List.filter_append, hend,
    List.append_nil, List.map_append, List.append_assoc]

/-- A slash at the end does not count. -/
theorem components_append_slash {text : List Char} (h : text ≠ []) :
    (Pathname.mk (String.ofList (text ++ ['/']))).components =
      (Pathname.mk (String.ofList text)).components := by
  have hhead : (text ++ ['/']).head? = text.head? := by
    cases text with
    | nil => exact absurd rfl h
    | cons c text => rfl
  have hend : (List.splitOn '/' []).filter (fun s => !isIdle s) = [] := rfl
  obtain ⟨piece, pieces, hpieces⟩ := List.exists_cons_of_ne_nil (List.splitOn_ne_nil '/' text)
  unfold components isAbsolute
  simp only [String.toList_ofList, hhead, List.splitOn_append_cons_self, hpieces, List.cons_append,
    List.head?_cons]
  rw [← List.cons_append, List.filter_append, hend, List.append_nil]

theorem components_append_name (text : List Char) {name : String} (h : IsFileName name) :
    (Pathname.mk (String.ofList (text ++ '/' :: name.toList))).components =
      (Pathname.mk (String.ofList (text ++ ['/']))).components ++ [.name name] := by
  rw [components_append, List.splitOn_eq_singleton h.2.2.2,
    List.filter_cons_of_pos (by simp [h.isIdle])]
  simp [h.componentOf]

theorem isAbsolute_of_isFileName {name : String} (h : IsFileName name) :
    (Pathname.mk name).isAbsolute = false := by
  unfold isAbsolute
  cases hchars : name.toList with
  | nil => rfl
  | cons c chars =>
    have hslash : c ≠ '/' := by
      rintro rfl
      exact h.2.2.2 (by simp [hchars])
    simp [hslash]

theorem components_join {p : Pathname} {name : String} (hp : p.text ≠ "") (h : IsFileName name) :
    (p.join name).components = p.components ++ [.name name] := by
  have hne : p.text.toList ≠ [] := by simpa using hp
  have happend : ∀ text : List Char, String.ofList (text ++ '/' :: name.toList) =
      String.ofList (text ++ ['/']) ++ name := by
    intro text
    rw [← String.toList_inj]
    simp
  unfold join
  rw [if_neg (by simp [isAbsolute_of_isFileName h])]
  split
  · next hlast =>
    -- the directory is spelled with a slash at its end
    have hslash : p.text.toList.getLast? = some '/' := by simpa [hp] using hlast
    obtain ⟨text, htext⟩ := List.getLast?_eq_some_iff.mp hslash
    have hp' : p = ⟨String.ofList (text ++ ['/'])⟩ := by rw [← htext, String.ofList_toList]
    rw [hp', ← happend, components_append_name text h]
  · have hjoined : p.text ++ "/" ++ name =
        String.ofList (p.text.toList ++ '/' :: name.toList) := by
      rw [happend, ← String.toList_inj]
      simp
    rw [hjoined, components_append_name _ h, components_append_slash hne, String.ofList_toList]

theorem join_ne_empty (p : Pathname) {name : String} (h : IsFileName name) :
    (p.join name).text ≠ "" := by
  unfold join
  rw [if_neg (by simp [isAbsolute_of_isFileName h])]
  split <;> simp [h.1]

theorem components_foldl_join {names : List String} (h : ∀ name ∈ names, IsFileName name)
    {p : Pathname} (hp : p.text ≠ "") :
    (names.foldl join p).components = p.components ++ names.map .name := by
  induction names generalizing p with
  | nil => simp
  | cons name names ih =>
    obtain ⟨hname, hnames⟩ := List.forall_mem_cons.mp h
    rw [List.foldl_cons, ih hnames (p.join_ne_empty hname), components_join hp hname,
      List.map_cons, List.append_assoc, List.singleton_append]

end Pathname

/-! ## Resolving dots -/

/-- One piece further along a path: a dot stays, and two dots go back by a name. -/
def enter (done : List (List Char)) (piece : List Char) : List (List Char) :=
  if Pathname.isIdle piece then done
  else if piece = ['.', '.'] ∧ done.getLast?.any (· ≠ ['.', '.']) then done.dropLast
  else done ++ [piece]

/-- A path that starts at no root, with its dots resolved. -/
def normalized (path : List Char) : List Char :=
  ['/'].intercalate ((path.splitOn '/').foldl enter [])

theorem foldl_enter_names {names : List String} (h : ∀ name ∈ names, IsFileName name)
    (done : List (List Char)) :
    (names.map String.toList).foldl enter done = done ++ names.map String.toList := by
  induction names generalizing done with
  | nil => simp
  | cons name names ih =>
    obtain ⟨hname, hnames⟩ := List.forall_mem_cons.mp h
    have hstep : enter done name.toList = done ++ [name.toList] := by
      rw [enter, if_neg (by simp [hname.isIdle]), if_neg (by simp [hname.ne_parent])]
    rw [List.map_cons, List.foldl_cons, hstep, ih hnames, List.append_assoc,
      List.singleton_append]

/-- What the pieces of a path of names resolve to. -/
theorem foldl_enter_splitOn {names : List String} (h : ∀ name ∈ names, IsFileName name)
    (done : List (List Char)) :
    ((['/'].intercalate (names.map String.toList)).splitOn '/').foldl enter done =
      done ++ names.map String.toList := by
  cases names with
  | nil => simp [enter, Pathname.isIdle]
  | cons name names =>
    have hslash : ∀ piece ∈ (name :: names).map String.toList, '/' ∉ piece := by
      intro piece hpiece
      obtain ⟨n, hn, rfl⟩ := List.mem_map.mp hpiece
      exact (h n hn).2.2.2
    rw [List.splitOn_intercalate _ hslash (by simp), foldl_enter_names h]

theorem normalized_names {names : List String} (h : ∀ name ∈ names, IsFileName name) :
    normalized (['/'].intercalate (names.map String.toList)) =
      ['/'].intercalate (names.map String.toList) := by
  rw [normalized, foldl_enter_splitOn h, List.nil_append]

/-- Going down by a name and back leads to where one was. -/
theorem normalized_back {name : String} (h : IsFileName name) (path : List Char) :
    normalized (name.toList ++ '/' :: '.' :: '.' :: '/' :: path) = normalized path := by
  have hback : ('.' :: '.' :: '/' :: path).splitOn '/' = ['.', '.'] :: path.splitOn '/' :=
    List.splitOn_append_cons_self ['.', '.'] path
  have hdown : enter [] name.toList = [name.toList] := by
    rw [enter, if_neg (by simp [h.isIdle]), if_neg (by simp), List.nil_append]
  have hup : enter [name.toList] ['.', '.'] = [] := by
    rw [enter, if_neg (by decide), if_pos (by simp [h.ne_parent])]
    rfl
  unfold normalized
  rw [List.splitOn_append_cons_self_of_not_mem h.2.2.2, hback, List.foldl_cons, List.foldl_cons,
    hdown, hup]

/-! ## How long paths are -/

/-- The pieces of a path with a slash behind each. -/
def spread (pieces : List (List Char)) : List Char := pieces.flatMap fun piece => piece ++ ['/']

theorem spread_append (xs ys : List (List Char)) : spread (xs ++ ys) = spread xs ++ spread ys :=
  List.flatMap_append

theorem intercalate_append_slash {pieces : List (List Char)} (hne : pieces ≠ []) :
    ['/'].intercalate pieces ++ ['/'] = spread pieces := by
  induction pieces with
  | nil => exact absurd rfl hne
  | cons piece pieces ih =>
    cases pieces with
    | nil => simp [spread, List.intercalate_singleton]
    | cons next pieces =>
      rw [List.intercalate_cons_cons, List.append_assoc, ih (by simp)]
      rfl

section Size

-- any way to count the characters of a text, one after the other
variable {size : List Char → Nat} (hsize : ∀ xs ys, size (xs ++ ys) = size xs + size ys)

include hsize

theorem size_spread_enter_le (done : List (List Char)) (piece : List Char) :
    size (spread (enter done piece)) ≤ size (spread done) + size (spread [piece]) := by
  unfold enter
  split
  · omega
  · split
    · rcases List.eq_nil_or_concat done with rfl | ⟨front, last, rfl⟩
      · exact Nat.le_add_right _ _
      · rw [List.concat_eq_append, List.dropLast_concat, spread_append, hsize]
        omega
    · exact Nat.le_of_eq (by rw [spread_append, hsize])

theorem size_spread_foldl_enter_le (pieces done : List (List Char)) :
    size (spread (pieces.foldl enter done)) ≤ size (spread done) + size (spread pieces) := by
  induction pieces generalizing done with
  | nil => exact Nat.le_add_right _ _
  | cons piece pieces ih =>
    have hrest := ih (enter done piece)
    have hfirst := size_spread_enter_le hsize done piece
    have hcons :
        size (spread (piece :: pieces)) = size (spread [piece]) + size (spread pieces) := by
      rw [← hsize, ← spread_append, List.singleton_append]
    rw [List.foldl_cons]
    omega

/-- Resolving dots makes no path longer, however its characters are counted. -/
theorem size_normalized_le (path : List Char) : size (normalized path) ≤ size path := by
  have hnil : size [] = 0 := by
    have hself := hsize [] []
    rw [List.append_nil] at hself
    omega
  have hpath := congrArg size (intercalate_append_slash (List.splitOn_ne_nil '/' path))
  rw [List.intercalate_splitOn, hsize] at hpath
  have hle := size_spread_foldl_enter_le hsize (path.splitOn '/') []
  rw [show spread [] = [] from rfl, hnil] at hle
  unfold normalized
  by_cases hdone : (path.splitOn '/').foldl enter [] = []
  · rw [hdone, show ['/'].intercalate ([] : List (List Char)) = [] from rfl, hnil]
    exact Nat.zero_le _
  · have hnormal := congrArg size (intercalate_append_slash hdone)
    rw [hsize] at hnormal
    omega

end Size

end LiveLisp.Files
