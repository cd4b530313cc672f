import LiveLisp.Proofs.Files.Pathname
import Mathlib.Data.List.TakeDrop
import Mathlib.Data.List.TakeWhile
/-!
# Two spellings of one path

Paths with the same components lead to the same place, and stay so when the extension of the file
name is replaced.  What the spelling itself decides is whether a directory is asked for: a path that
ends in a name with a new extension never does.
-/

namespace LiveLisp.Files


/-- A piece of a path that is a name of a file. -/
theorem isFileName_ofList {piece : List Char} (hidle : Pathname.isIdle piece = false)
    (hparent : piece ≠ ['.', '.']) (hslash : '/' ∉ piece) : IsFileName (String.ofList piece) := by
  simp only [Pathname.isIdle, Bool.or_eq_false_iff, beq_eq_false_iff_ne, List.isEmpty_eq_false_iff]
    at hidle
  refine ⟨fun h => hidle.1 ?_, fun h => hidle.2 ?_, fun h => hparent ?_, by simpa using hslash⟩
  all_goals simpa using congrArg String.toList h

namespace Pathname

/-! ## Slashes and dots at the end -/

/-- What comes before a file name: nothing, or a text up to a slash. -/
def IsFront (front : List Char) : Prop := front = [] ∨ ∃ directory, front = directory ++ ['/']

theorem components_front_append {front : List Char} (hfront : IsFront front) {name : String}
    (h : IsFileName name) :
    (Pathname.mk (String.ofList (front ++ name.toList))).components =
      (Pathname.mk (String.ofList front)).components ++ [.name name] := by
  rcases hfront with rfl | ⟨directory, rfl⟩
  · have hempty : (Pathname.mk (String.ofList [])).components = [] := rfl
    have hhead : name.toList ≠ ['.'] := fun heq => h.2.1 (String.toList_inj.mp heq)
    rw [hempty, List.nil_append, List.nil_append, String.ofList_toList]
    unfold components
    rw [isAbsolute_of_isFileName h, List.splitOn_eq_singleton h.2.2.2]
    simp [hhead, h.isIdle, h.componentOf]
  · rw [List.append_assoc, List.singleton_append, components_append_name directory h]

/-- A slash or a slash and a dot at the end do not count, except that they make the root. -/
theorem components_trimReversed (text : List Char) :
    (Pathname.mk (String.ofList text.reverse)).components =
        (Pathname.mk (String.ofList (trimReversed text).reverse)).components ∨
      trimReversed text = [] ∧ (Pathname.mk (String.ofList text.reverse)).components = [.root] := by
  have hslash : ∀ rest : List Char, rest = [] ∨
      (Pathname.mk (String.ofList (rest.reverse ++ ['/']))).components =
        (Pathname.mk (String.ofList rest.reverse)).components := fun rest =>
    or_iff_not_imp_left.mpr fun hne => components_append_slash (by simpa using hne)
  fun_induction trimReversed text with
  | case1 rest ih =>
    rw [List.reverse_cons]
    rcases hslash rest with rfl | hrest
    · exact .inr ⟨rfl, rfl⟩
    · rwa [hrest]
  | case2 rest ih =>
    have hdot : (Pathname.mk (String.ofList (rest.reverse ++ '/' :: ['.']))).components =
        (Pathname.mk (String.ofList (rest.reverse ++ ['/']))).components := by
      rw [components_append]
      simp [List.splitOn_cons_eq_if_modifyHead, isIdle]
    rw [List.reverse_cons, List.reverse_cons, List.append_assoc, List.singleton_append, hdot]
    rcases hslash rest with rfl | hrest
    · exact .inr ⟨rfl, rfl⟩
    · rwa [hrest]
  | case3 text => exact .inl rfl

/-- Neither a slash nor a slash and a dot are left at the end. -/
theorem trimReversed_not_slash (text rest : List Char) :
    trimReversed text ≠ '/' :: rest ∧ trimReversed text ≠ '.' :: '/' :: rest := by
  fun_induction trimReversed text with
  | case1 _ ih => exact ih
  | case2 _ ih => exact ih
  | case3 text hslash hdot => exact ⟨fun h => hslash _ h, fun h => hdot _ h⟩

/-! ## The file name -/

/-- A text from its end on: its last piece, and what stands before that. -/
theorem exists_last_piece (text : List Char) : ∃ front name : List Char, IsFront front ∧
    '/' ∉ name ∧ text = name.reverse ++ front.reverse ∧
      text.span (· ≠ '/') = (name.reverse, front.reverse) := by
  refine ⟨(text.dropWhile (· ≠ '/')).reverse, (text.takeWhile (· ≠ '/')).reverse, ?_, ?_, ?_, ?_⟩
  · cases hd : text.dropWhile (· ≠ '/') with
    | nil => exact .inl rfl
    | cons c rest =>
      have hc : c = '/' := by
        have hhead := List.head?_dropWhile_not (· ≠ '/') text
        rw [hd] at hhead
        simpa using hhead
      exact .inr ⟨rest.reverse, by rw [List.reverse_cons, hc]⟩
  · rw [List.mem_reverse]
    intro hmem
    simpa using List.mem_takeWhile_imp hmem
  · rw [List.reverse_reverse, List.reverse_reverse, List.takeWhile_append_dropWhile]
  · rw [List.reverse_reverse, List.reverse_reverse, List.span_eq_takeWhile_dropWhile]

/-- A path that has a file name is spelled as a front and the name, but for its end. -/
theorem of_splitName?_eq_some {p : Pathname} {front name : List Char}
    (h : p.splitName? = some (front, name)) :
    IsFront front ∧ IsFileName (String.ofList name) ∧
      p.components = (Pathname.mk (String.ofList front)).components ++
        [.name (String.ofList name)] := by
  have htext : p = ⟨String.ofList (p.text.toList.reverse).reverse⟩ := by simp
  obtain ⟨front', name', hfront, hslash, htrimmed, hspan⟩ :=
    exists_last_piece (trimReversed p.text.toList.reverse)
  unfold splitName? at h
  simp only [hspan, List.reverse_reverse] at h
  split at h
  · contradiction
  · next hname =>
    obtain ⟨rfl, rfl⟩ := Prod.mk.inj (Option.some.inj h)
    simp only [not_or] at hname
    have hfile : IsFileName (String.ofList name') :=
      isFileName_ofList (by simp [isIdle, hname.1, hname.2.1]) hname.2.2 hslash
    refine ⟨hfront, hfile, ?_⟩
    rcases components_trimReversed p.text.toList.reverse with hsame | ⟨hnil, -⟩
    · rw [htext, hsame, htrimmed]
      simpa using components_front_append hfront hfile
    · rw [hnil] at htrimmed
      simp [hname.1] at htrimmed

theorem concat_ne_of_ne {cs cs' : List Component} {c c' : Component} (h : c ≠ c') :
    cs ++ [c] ≠ cs' ++ [c'] := by
  intro heq
  rw [← List.concat_eq_append, ← List.concat_eq_append] at heq
  exact h (List.concat_inj.mp heq).2

/-- The components of a path without file name end in no name. -/
theorem of_splitName?_eq_none {p : Pathname} (h : p.splitName? = none) (cs : List Component)
    (name : String) : p.components ≠ cs ++ [.name name] := by
  have htext : p = ⟨String.ofList (p.text.toList.reverse).reverse⟩ := by simp
  have hends : ∀ cs' c, c ≠ Component.name name → cs' ++ [c] ≠ cs ++ [.name name] :=
    fun cs' c hc => concat_ne_of_ne hc
  rcases components_trimReversed p.text.toList.reverse with hsame | ⟨-, honly⟩
  · rw [htext, hsame]
    have hstart := trimReversed_not_slash p.text.toList.reverse
    obtain ⟨front, last, hfront, hslash, htrimmed, hspan⟩ :=
      exists_last_piece (trimReversed p.text.toList.reverse)
    unfold splitName? at h
    simp only [hspan, List.reverse_reverse, ite_eq_left_iff, reduceCtorEq, imp_false,
      not_not] at h
    rw [htrimmed] at hstart ⊢
    rcases hfront with rfl | ⟨directory, rfl⟩
    · rcases h with rfl | rfl | rfl
      · exact fun heq => List.append_ne_nil_of_right_ne_nil cs (List.cons_ne_nil _ _) heq.symm
      · exact hends [] .current (by simp)
      · exact hends [] .parent (by simp)
    · rcases h with rfl | rfl | rfl
      · exact absurd (by simp) (hstart directory.reverse).1
      · exact absurd (by simp) (hstart directory.reverse).2
      · have hparent := components_append directory ['.', '.']
        simp only [List.reverse_append, List.reverse_reverse, List.append_assoc,
          List.singleton_append, hparent]
        exact hends _ .parent (by simp)
  · rw [htext, honly]
    exact hends [] .root (by simp)

/-- The file name does not depend on the spelling, nor where it stands. -/
theorem splitName?_congr {p q : Pathname} (h : p.components = q.components) :
    p.splitName? = none ∧ q.splitName? = none ∨
      ∃ front front' name, p.splitName? = some (front, name) ∧ q.splitName? = some (front', name) ∧
        (Pathname.mk (String.ofList front)).components =
          (Pathname.mk (String.ofList front')).components := by
  cases hp : p.splitName? with
  | none =>
    cases hq : q.splitName? with
    | none => exact .inl ⟨rfl, rfl⟩
    | some split =>
      obtain ⟨-, -, hlast⟩ := of_splitName?_eq_some hq
      exact absurd (h.trans hlast) (of_splitName?_eq_none hp _ _)
  | some split =>
    obtain ⟨-, -, hlast⟩ := of_splitName?_eq_some hp
    cases hq : q.splitName? with
    | none => exact absurd (h.symm.trans hlast) (of_splitName?_eq_none hq _ _)
    | some split' =>
      obtain ⟨-, -, hlast'⟩ := of_splitName?_eq_some hq
      rw [hlast, hlast'] at h
      obtain ⟨hfronts, hnames⟩ := List.append_inj' h rfl
      have hsame : split.2 = split'.2 := by simpa [← String.toList_inj] using hnames
      refine .inr ⟨split.1, split'.1, split.2, rfl, ?_, hfronts⟩
      rw [hsame]

/-! ## Another extension -/

/-- A file name with another extension. -/
def extended (name : List Char) (extension : String) : String :=
  String.ofList ((splitExtension name).1 ++ '.' :: extension.toList)

theorem withExtension_of_some {p : Pathname} {front name : List Char}
    (h : p.splitName? = some (front, name)) (extension : String) :
    p.withExtension extension =
      ⟨String.ofList (front ++ (extended name extension).toList)⟩ := by
  simp only [withExtension, h, extended, Pathname.mk.injEq, ← String.toList_inj]
  simp

theorem stem_subset (name : List Char) :
    (splitExtension name).1 ⊆ name ∧ (name ≠ [] → (splitExtension name).1 ≠ []) := by
  unfold splitExtension
  simp only [List.span_eq_takeWhile_dropWhile]
  split
  · next dot c rest hrest =>
    refine ⟨fun d hd => ?_, fun _ => by simp⟩
    have hmem : d ∈ name.reverse.dropWhile (· ≠ '.') := by
      rw [hrest]
      exact List.mem_cons_of_mem _ (List.mem_reverse.mp hd)
    exact List.mem_reverse.mp ((List.dropWhile_sublist _).subset hmem)
  · exact ⟨List.Subset.refl _, id⟩

theorem isFileName_extended {name : List Char} (hname : IsFileName (String.ofList name))
    {extension : String} (hsome : extension ≠ "") (hslash : '/' ∉ extension.toList) :
    IsFileName (extended name extension) := by
  obtain ⟨hsubset, hstem⟩ := stem_subset name
  have hne : name ≠ [] := by
    rintro rfl
    exact hname.1 rfl
  obtain ⟨c, stem, hc⟩ := List.exists_cons_of_ne_nil (hstem hne)
  have hmore : extension.toList ≠ [] := by simpa using hsome
  obtain ⟨e, more, he⟩ := List.exists_cons_of_ne_nil hmore
  refine isFileName_ofList ?_ ?_ ?_
  · simp [isIdle, hc]
  · intro heq
    have hlength := congrArg List.length heq
    simp only [hc, he, List.length_append, List.length_cons, List.length_nil] at hlength
    omega
  · have hmem : '/' ∉ name := by simpa using hname.2.2.2
    simp only [List.mem_append, List.mem_cons, not_or]
    exact ⟨fun h => hmem (hsubset h), by decide, hslash⟩

/-- Which path has another extension does not depend on the spelling. -/
theorem components_withExtension {p q : Pathname} (h : p.components = q.components)
    {extension : String} (hsome : extension ≠ "") (hslash : '/' ∉ extension.toList) :
    (p.withExtension extension).components = (q.withExtension extension).components := by
  rcases splitName?_congr h with ⟨hp, hq⟩ | ⟨front, front', name, hp, hq, hfronts⟩
  · simp only [withExtension, hp, hq, h]
  · obtain ⟨hfront, hname, -⟩ := of_splitName?_eq_some hp
    obtain ⟨hfront', -, -⟩ := of_splitName?_eq_some hq
    have hfile := isFileName_extended hname hsome hslash
    rw [withExtension_of_some hp, withExtension_of_some hq, components_front_append hfront hfile,
      components_front_append hfront' hfile, hfronts]

/-- A file name at the end asks for no directory. -/
theorem wantsDirectory_front_append (front : List Char) {name : String} (h : IsFileName name) :
    Tree.wantsDirectory ⟨String.ofList (front ++ name.toList)⟩ = false := by
  have hreversed : (front ++ name.toList).reverse = name.toList.reverse ++ front.reverse := by simp
  have hslash : '/' ∉ name.toList.reverse := by simpa using h.2.2.2
  unfold Tree.wantsDirectory
  rw [String.toList_ofList, hreversed]
  cases hchars : name.toList.reverse with
  | nil => exact absurd (by simpa using hchars) h.1
  | cons c rest =>
    rw [hchars] at hslash
    simp only [List.mem_cons, not_or] at hslash
    split
    · next hstart => exact absurd (List.cons.inj hstart).1.symm hslash.1
    · next hstart =>
      -- a lone dot is no name
      cases rest with
      | nil =>
        have hdot : name.toList = ['.'] := by
          rw [← List.reverse_inj, hchars, (List.cons.inj hstart).1]
          rfl
        exact absurd (String.toList_inj.mp hdot) h.2.1
      | cons d rest =>
        have hd : d = '/' := (List.cons.inj (List.cons.inj hstart).2).1
        exact absurd (by simp [hd]) hslash.2
    · rfl

/-- A slash at the end asks for a directory. -/
theorem wantsDirectory_join_empty {p : Pathname} (h : p.text ≠ "") :
    Tree.wantsDirectory (p.join "") = true := by
  have hslash : ∀ q : Pathname, q.text.toList.getLast? = some '/' →
      Tree.wantsDirectory q = true := by
    intro q hlast
    obtain ⟨front, hfront⟩ := List.getLast?_eq_some_iff.mp hlast
    unfold Tree.wantsDirectory
    rw [hfront, List.reverse_append]
    rfl
  apply hslash
  unfold join
  rw [if_neg (by decide)]
  split
  · next hend =>
    have hlast : p.text.toList.getLast? = some '/' := by simpa [h] using hend
    simpa using hlast
  · simp

/-- Only the empty path has no components. -/
theorem components_eq_nil_iff {p : Pathname} : p.components = [] ↔ p.text = "" := by
  rw [← String.toList_eq_nil_iff]
  unfold components isAbsolute
  cases hchars : p.text.toList with
  | nil => simp [isIdle]
  | cons c chars =>
    refine iff_of_false ?_ (by simp)
    by_cases hc : c = '/'
    · simp [hc]
    · obtain ⟨piece, pieces, hpieces⟩ := List.exists_cons_of_ne_nil (List.splitOn_ne_nil '/' chars)
      by_cases hdot : c :: piece = ['.']
      · simp [List.splitOn_cons_eq_if_modifyHead, hc, hpieces, hdot]
      · have hcounts : isIdle (c :: piece) = false := by simpa [isIdle] using hdot
        simp [List.splitOn_cons_eq_if_modifyHead, hc, hpieces, hdot, hcounts]

end Pathname

/-! ## Places and files -/

namespace Tree

variable {t : Tree} {p q : Pathname}

/-- Everything in a tree lies in a directory. -/
def Rooted (t : Tree) : Prop := ∀ e ∈ t.nodes.entries, t.node? e.1.dropLast = some .directory

instance (t : Tree) : Decidable t.Rooted := inferInstanceAs (Decidable (∀ e ∈ t.nodes.entries, _))

theorem Rooted.node?_dropLast (h : t.Rooted) {place : Place} {node : Node}
    (hnode : t.node? place = some node) : t.node? place.dropLast = some .directory := by
  by_cases hplace : place = []
  · simp [hplace, node?]
  · rw [node?, if_neg hplace] at hnode
    exact h _ (Table.mem_entries_of_get? hnode)

/-- What spelling and place decide about the text of a file. -/
theorem readText_congr (h : p.components = q.components)
    (hwants : wantsDirectory p = wantsDirectory q) : t.readText p = t.readText q := by
  have hempty : p.text.isEmpty = q.text.isEmpty := by
    rw [Bool.eq_iff_iff, String.isEmpty_iff, String.isEmpty_iff, ← Pathname.components_eq_nil_iff,
      ← Pathname.components_eq_nil_iff, h]
  unfold readText readBytes locate
  rw [h, hwants, hempty]

/-- The last step of a way. -/
theorem stepAll_concat {place place' : Place} {cs : List Component} {c : Component}
    (h : t.stepAll place (cs ++ [c]) = .ok place') :
    ∃ before, t.step before c = .ok place' := by
  induction cs generalizing place with
  | nil =>
    rw [List.nil_append, stepAll] at h
    split at h
    · next hstep =>
      obtain rfl := Except.ok.inj h
      exact ⟨place, hstep⟩
    · contradiction
  | cons d cs ih =>
    rw [List.cons_append, stepAll] at h
    split at h
    · exact ih h
    · contradiction

/-- A step that is no step to a name leads to a directory. -/
theorem node?_of_step (h : t.Rooted) {place place' : Place} {c : Component}
    (hstep : t.step place c = .ok place') (hc : ∀ name, c ≠ .name name) :
    t.node? place' = some .directory := by
  unfold step at hstep
  split at hstep
  · contradiction
  · contradiction
  · next hdirectory =>
    split at hstep
    · obtain rfl := Except.ok.inj hstep
      rfl
    · obtain rfl := Except.ok.inj hstep
      exact hdirectory
    · obtain rfl := Except.ok.inj hstep
      exact h.node?_dropLast hdirectory
    · next name => exact absurd rfl (hc name)

/-- A path that does not end in a name leads to no file. -/
theorem locate_of_no_name (h : t.Rooted) (hlast : ∀ cs name, p.components ≠ cs ++ [.name name]) :
    (∃ e, t.locate p = .error e) ∨ ∃ place, t.locate p = .ok (place, some .directory) := by
  unfold locate
  rcases List.eq_nil_or_concat p.components with hnil | ⟨cs, c, hcs⟩
  · exact .inl ⟨.notFound, by simp [Pathname.components_eq_nil_iff.mp hnil]⟩
  · rw [List.concat_eq_append] at hcs
    have hname : ∀ name, c ≠ .name name := fun name hc => hlast cs name (hc ▸ hcs)
    cases hsteps : t.stepAll t.cwd p.components with
    | error e =>
      refine .inl ?_
      split <;> exact ⟨_, rfl⟩
    | ok place =>
      obtain ⟨before, hstep⟩ := stepAll_concat (hcs ▸ hsteps)
      simp only [node?_of_step h hstep hname]
      split
      · exact .inl ⟨_, rfl⟩
      · exact .inr ⟨place, rfl⟩

theorem readText_of_no_name (h : t.Rooted)
    (hlast : ∀ cs name, p.components ≠ cs ++ [.name name]) : (t.readText p).toOption = none := by
  rcases locate_of_no_name h hlast with ⟨e, he⟩ | ⟨place, hplace⟩
  · simp only [readText, readBytes, he]
    rfl
  · simp only [readText, readBytes, hplace]
    rfl

/-- The text of the file with another extension does not depend on the spelling. -/
theorem readText_withExtension (hroot : t.Rooted) (h : p.components = q.components)
    {extension : String} (hsome : extension ≠ "") (hslash : '/' ∉ extension.toList) :
    (t.readText (p.withExtension extension)).toOption =
      (t.readText (q.withExtension extension)).toOption := by
  have hcomponents := Pathname.components_withExtension h hsome hslash
  rcases Pathname.splitName?_congr h with ⟨hp, hq⟩ | ⟨front, front', name, hp, hq, -⟩
  · have hsame : ∀ {p : Pathname}, p.splitName? = none → p.withExtension extension = p :=
      fun hp => by simp only [Pathname.withExtension, hp]
    rw [hsame hp, hsame hq, readText_of_no_name hroot (Pathname.of_splitName?_eq_none hp),
      readText_of_no_name hroot (Pathname.of_splitName?_eq_none hq)]
  · obtain ⟨-, hname, -⟩ := Pathname.of_splitName?_eq_some hp
    have hfile := Pathname.isFileName_extended hname hsome hslash
    refine congrArg Except.toOption (readText_congr hcomponents ?_)
    rw [Pathname.withExtension_of_some hp, Pathname.withExtension_of_some hq,
      Pathname.wantsDirectory_front_append _ hfile, Pathname.wantsDirectory_front_append _ hfile]

end Tree

end LiveLisp.Files
