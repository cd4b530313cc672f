import LiveLisp.Proofs.Munge
import LiveLisp.Proofs.Text.Utf8
import LiveLisp.SourceMap.Trace
/-!
# Names of functions in stack frames

A generated function is known by a path: the segments of its namespace and its own identifier,
with dots or dollar signs between them.  What follows the last of these marks is taken for the
identifier.  So the name of a definition is shown as it was written, unless it is a reserved word:
the identifier of such a word ends in a mark itself, and nothing is left of it.
-/

namespace LiveLisp.SourceMap

open Files (Tree)
open Munge (demunge munge mungeChars reserved)

/-! ## Paths of functions -/

/-- The path of a definition with `mark` between all its segments. -/
def functionPath (mark : Char) (ns name : String) : String :=
  String.ofList ([mark].intercalate
    ((ns.toList.splitOn '.').map mungeChars ++ [mungeChars name.toList]))

theorem intercalate_concat (mark : Char) {pieces : List (List Char)} (hne : pieces ≠ [])
    (last : List Char) :
    [mark].intercalate (pieces ++ [last]) = [mark].intercalate pieces ++ mark :: last := by
  induction pieces with
  | nil => exact absurd rfl hne
  | cons piece pieces ih =>
    cases pieces with
    | nil => simp [List.intercalate_cons_cons]
    | cons next pieces =>
      have hrest := ih (by simp)
      rw [List.cons_append] at hrest ⊢
      rw [List.cons_append, List.intercalate_cons_cons, hrest, List.intercalate_cons_cons]
      simp only [List.append_assoc]

/-- The identifier stands behind the last mark that joins segments. -/
theorem toList_functionPath (mark : Char) (ns name : String) :
    (functionPath mark ns name).toList =
      [mark].intercalate ((ns.toList.splitOn '.').map mungeChars) ++
        mark :: mungeChars name.toList := by
  have hne : (ns.toList.splitOn '.').map mungeChars ≠ [] := by
    simp [List.splitOn_ne_nil]
  rw [functionPath, String.toList_ofList, intercalate_concat mark hne]

/-- With dots this is the path that the definition is compiled to. -/
theorem functionPath_dot (ns name : String) :
    functionPath '.' ns name = Munge.definitionPath ns name := by
  apply String.toList_inj.mp
  rw [toList_functionPath]
  simp [Munge.definitionPath, Munge.mungePath, munge]

/-! ## The last segment -/

theorem functionName_of_last {path : String} {front last : List Char} {mark : Char}
    (hmark : mark = '.' ∨ mark = '$') (hpath : path.toList = front ++ mark :: last)
    (hdot : '.' ∉ last) (hdollar : '$' ∉ last) :
    functionName path = demunge (String.ofList last) := by
  have hlast : ∀ c ∈ last.reverse, decide (c ≠ '$' ∧ c ≠ '.') = true := by
    intro c hc
    have hmem := List.mem_reverse.mp hc
    apply decide_eq_true
    exact ⟨fun h => hdollar (h ▸ hmem), fun h => hdot (h ▸ hmem)⟩
  have hstop : decide (mark ≠ '$' ∧ mark ≠ '.') = false := by
    rcases hmark with rfl | rfl <;> decide
  have hreverse : path.toList.reverse = last.reverse ++ mark :: front.reverse := by
    simp [hpath]
  unfold functionName
  rw [hreverse, List.takeWhile_append_of_pos hlast, List.takeWhile_cons_of_neg (by simp [hstop]),
    List.append_nil, List.reverse_reverse]

/-- Neither a dot nor a dollar sign comes from the spelling of another character. -/
theorem not_mem_flatMap_mungeChar {c : Char} (hc : c = '.' ∨ c = '$') {name : List Char}
    (h : c ∉ name) : c ∉ name.flatMap Munge.mungeChar := by
  intro hmem
  obtain ⟨d, hd, hcd⟩ := List.mem_flatMap.mp hmem
  rcases Munge.mem_mungeChar hcd with rfl | halpha | rfl
  · exact absurd hc (by decide)
  · rcases hc with rfl | rfl <;> exact absurd halpha (by decide)
  · exact h hd

theorem functionName_of_reserved {name : String} (h : name.toList ∈ reserved) (mark : Char)
    (ns : String) : functionName (functionPath mark ns name) = "" := by
  have hmarked : mungeChars name.toList = name.toList ++ ['$'] := by
    have hself := Munge.flatMap_mungeChar_of_reserved h
    simp [mungeChars, hself, h]
  have hpath : (functionPath mark ns name).toList =
      ([mark].intercalate ((ns.toList.splitOn '.').map mungeChars) ++
        mark :: name.toList) ++ '$' :: [] := by
    rw [toList_functionPath, hmarked]
    simp
  rw [functionName_of_last (.inr rfl) hpath (by simp) (by simp)]
  rfl

theorem functionName_of_not_reserved {name : String} (h : name.toList ∉ reserved)
    (hdot : '.' ∉ name.toList) (hdollar : '$' ∉ name.toList) {mark : Char}
    (hmark : mark = '.' ∨ mark = '$') (ns : String) :
    functionName (functionPath mark ns name) = demunge (munge name) := by
  have hplain : name.toList.flatMap Munge.mungeChar ∉ reserved := by
    intro hmem
    have hself := Munge.flatMap_mungeChar_eq_self (Munge.not_mem_reserved hmem (c := '_') rfl)
    exact h (hself ▸ hmem)
  have hchars : mungeChars name.toList = name.toList.flatMap Munge.mungeChar := by
    simp [mungeChars, hplain]
  apply functionName_of_last hmark (toList_functionPath mark ns name)
  · rw [hchars]
    exact not_mem_flatMap_mungeChar (.inl rfl) hdot
  · rw [hchars]
    exact not_mem_flatMap_mungeChar (.inr rfl) hdollar

/-! ## Frames -/

/-- The line of a frame whose source declares a namespace. -/
theorem frame_of_declared {r : Tracer} {t : Tree} {f : Frame} {source : Declared} {path : String}
    (hfunction : f.function = some path)
    (hsource : (r.lookDeclared t (r.outputDir.join f.file)).1 = some source) :
    ∃ pos, (r.frame t f).1 =
      frameText (some (source.ns ++ "/" ++ functionName path)) (shownPath t source.path) pos := by
  cases hlook : r.lookDeclared t (r.outputDir.join f.file) with
  | mk found r₁ =>
    rw [hlook] at hsource
    obtain rfl : found = some source := hsource
    unfold Tracer.frame
    simp only [hlook, hfunction]
    exact ⟨_, rfl⟩

/-- A reserved word is not empty, and its first character is a letter. -/
theorem exists_letter_of_reserved {word : List Char} (h : word ∈ reserved) :
    ∃ c cs, word = c :: cs ∧ c.isAlpha = true := by
  have hne : ∀ word ∈ reserved, word ≠ [] := by decide +kernel
  obtain ⟨c, cs, rfl⟩ := List.exists_cons_of_ne_nil (hne word h)
  exact ⟨c, cs, rfl, Munge.isAlpha_of_reserved h c (by simp)⟩

/-- The name of a definition that is read back from its identifier is shown in stack frames, behind
its namespace, exactly if it is no reserved word. -/
theorem frame_shows_name_iff {name : String} (hdot : '.' ∉ name.toList)
    (hdollar : '$' ∉ name.toList) (hback : demunge (munge name) = name) {mark : Char}
    (hmark : mark = '.' ∨ mark = '$') (ns : String) :
    (functionName (functionPath mark ns name) = name ↔ name.toList ∉ reserved) ∧
      ∀ (r : Tracer) (t : Tree) (f : Frame) (source : Declared),
        f.function = some (functionPath mark ns name) →
        (r.lookDeclared t (r.outputDir.join f.file)).1 = some source → source.ns = ns →
        ((∃ pos, (r.frame t f).1 =
            frameText (some (ns ++ "/" ++ name)) (shownPath t source.path) pos) ↔
          name.toList ∉ reserved) := by
  by_cases hreserved : name.toList ∈ reserved
  · obtain ⟨c, cs, hname, hletter⟩ := exists_letter_of_reserved hreserved
    have hlost := functionName_of_reserved hreserved mark ns
    refine ⟨?_, ?_⟩
    · rw [hlost]
      refine iff_of_false ?_ (not_not_intro hreserved)
      rintro rfl
      simp at hname
    · rintro r t f source hfunction hsource rfl
      refine iff_of_false ?_ (not_not_intro hreserved)
      rintro ⟨pos, hline⟩
      obtain ⟨pos', hshown⟩ := frame_of_declared hfunction hsource
      rw [hshown, hlost] at hline
      -- behind the namespace stands a blank in the one line and a letter in the other
      have hchars := congrArg String.toList hline
      simp only [frameText, String.toList_append, List.append_assoc, hname,
        List.append_cancel_left_eq] at hchars
      have hfirst : some ' ' = some c := congrArg List.head? hchars
      rw [← Option.some.inj hfirst] at hletter
      cases hletter
  · have hshown := functionName_of_not_reserved hreserved hdot hdollar hmark ns
    rw [hback] at hshown
    refine ⟨iff_of_true hshown hreserved, ?_⟩
    rintro r t f source hfunction hsource rfl
    refine iff_of_true ?_ hreserved
    obtain ⟨pos, hline⟩ := frame_of_declared hfunction hsource
    rw [hshown] at hline
    exact ⟨pos, hline⟩

/-- A tree with the source of one namespace in the directory `out`. -/
def tracedTree : Tree where
  cwd := ["home"]
  nodes := ⟨[(["home"], .directory), (["home", "out"], .directory),
    (["home", "out", "app"], .directory),
    (["home", "out", "app", "core.cljs"], .file (Text.Utf8.encode "(ns app.core)\n") false)]⟩

/-- A frame of a function in this namespace. -/
def tracedFrame (path : String) : Frame := ⟨"app/core.js", some path, 10, 4⟩

theorem load?_of_text {t : Tree} {file : Files.Pathname} {text : String}
    (h : t.readText file = .ok text) :
    Declared.load? t file =
      ((Reading.readAll text).toOption.bind declaredName?).map (⟨·, file⟩) := by
  simp only [Declared.load?, h]
  cases Reading.readAll text <;> rfl

theorem load?_tracedTree :
    Declared.load? tracedTree ⟨"out/app/core.cljs"⟩ =
      some ⟨"app.core", ⟨"out/app/core.cljs"⟩⟩ := by
  have htext : tracedTree.readText ⟨"out/app/core.cljs"⟩ = .ok "(ns app.core)\n" := by
    have hbytes : tracedTree.readBytes ⟨"out/app/core.cljs"⟩ =
        .ok (Text.Utf8.encode "(ns app.core)\n") := rfl
    simp only [Tree.readText, hbytes, Text.Utf8.decode?_encode]
  have hname : (Reading.readAll "(ns app.core)\n").toOption.bind declaredName? =
      some "app.core" := by decide +kernel
  rw [load?_of_text htext, hname]
  rfl

theorem lookDeclared_tracedTree (path : String) :
    ((Tracer.fresh ⟨"out"⟩).lookDeclared tracedTree
      ((Tracer.fresh ⟨"out"⟩).outputDir.join (tracedFrame path).file)).1 =
        some ⟨"app.core", ⟨"out/app/core.cljs"⟩⟩ := by
  have hsource : (((Tracer.fresh ⟨"out"⟩).outputDir.join "app/core.js").withExtension "cljs") =
      ⟨"out/app/core.cljs"⟩ := by decide +kernel
  unfold Tracer.lookDeclared tracedFrame
  rw [hsource, load?_tracedTree]
  simp only [Tracer.fresh, Table.get?_empty]

/-- Spelled characters and hyphens come back, whichever mark joins the segments. -/
theorem frame_shows_name_spelled :
    ('.' ∉ "do-thing!".toList ∧ '$' ∉ "do-thing!".toList ∧
        demunge (munge "do-thing!") = "do-thing!") ∧
      functionPath '$' "app.core" "do-thing!" = "app$core$do_thing_BANG_" ∧
      functionName "app$core$do_thing_BANG_" = "do-thing!" ∧
      ∃ pos, ((Tracer.fresh ⟨"out"⟩).frame tracedTree (tracedFrame "app$core$do_thing_BANG_")).1 =
        frameText (some "app.core/do-thing!") (shownPath tracedTree ⟨"out/app/core.cljs"⟩) pos := by
  have hdot : '.' ∉ "do-thing!".toList := by decide
  have hdollar : '$' ∉ "do-thing!".toList := by decide
  have hback : demunge (munge "do-thing!") = "do-thing!" := by decide +kernel
  have hfree : "do-thing!".toList ∉ reserved := by decide +kernel
  have hpath : functionPath '$' "app.core" "do-thing!" = "app$core$do_thing_BANG_" := by
    decide +kernel
  obtain ⟨hname, hframe⟩ := frame_shows_name_iff hdot hdollar hback (.inr rfl) "app.core"
  refine ⟨⟨hdot, hdollar, hback⟩, hpath, ?_, ?_⟩
  · rw [← hpath]
    exact hname.mpr hfree
  · exact (hframe (.fresh ⟨"out"⟩) tracedTree (tracedFrame "app$core$do_thing_BANG_") _
      (congrArg some hpath.symm) (lookDeclared_tracedTree _) rfl).mpr hfree

/-- A definition named by a reserved word loses its name. -/
theorem frame_of_reserved_word :
    ('.' ∉ "default".toList ∧ '$' ∉ "default".toList ∧
        demunge (munge "default") = "default") ∧
      functionPath '.' "app.core" "default" = "app.core.default$" ∧
      functionName "app.core.default$" = "" ∧
      ∃ pos, ((Tracer.fresh ⟨"out"⟩).frame tracedTree (tracedFrame "app.core.default$")).1 =
        frameText (some "app.core/") (shownPath tracedTree ⟨"out/app/core.cljs"⟩) pos := by
  have hlost : functionName "app.core.default$" = "" := by decide +kernel
  refine ⟨⟨by decide, by decide, by decide +kernel⟩, by decide +kernel, hlost, ?_⟩
  obtain ⟨pos, hline⟩ := frame_of_declared (f := tracedFrame "app.core.default$") rfl
    (lookDeclared_tracedTree _)
  rw [hlost] at hline
  exact ⟨pos, hline⟩

end LiveLisp.SourceMap
