import LiveLisp.Proofs.Files.Spellings
import LiveLisp.Proofs.SourceMap.Frames
import LiveLisp.Proofs.Text.Digits
/-!
# What a tracer remembers

A tracer looks at the files beside a generated file once, at the first spelling of its path that it
meets, and shows later frames from what it found there.  That spelling is all that can be seen of
earlier frames: the source is shown as it was spelled then, and positions come from the map that
was found then.
-/

namespace LiveLisp.SourceMap

open Files (Component Pathname Tree)
open Text (Position)

/-! ## One frame -/

/-- The namespace that the source beside a generated file declares. -/
def declaredBeside (t : Tree) (js : Pathname) : Option Declared :=
  Declared.load? t (js.withExtension "cljs")

/-- The map beside a generated file; a broken one counts as none. -/
def mapBeside (t : Tree) (js : Pathname) : Option Map :=
  match Map.load t (mapFile js) with
  | .ok m => m
  | .error _ => none

/-- Where a generated position comes from. -/
def sourcePosition (map : Option Map) (pos : Position) : Position :=
  match map with
  | some m => m.locate pos
  | none => pos

/-- The position that a frame names in its generated file. -/
def Frame.position (f : Frame) : Position := ⟨f.line, f.column⟩

/-- A function of a namespace, or the namespace alone. -/
def qualifiedName (ns : String) (function : Option String) : String :=
  match function with
  | some g => ns ++ "/" ++ functionName g
  | none => ns

/-- The line for a frame from the files beside `js`. -/
def lineFrom (t : Tree) (js : Pathname) (f : Frame) : String :=
  match declaredBeside t js with
  | none => frameText f.function f.file f.position
  | some source =>
    frameText (some (qualifiedName source.ns f.function)) (shownPath t source.path)
      (sourcePosition (mapBeside t js) f.position)

/-! ## Spellings that were met -/

/-- The first of the paths `met` with these components. -/
def firstWith? (met : List Pathname) (key : List Component) : Option Pathname :=
  met.find? (·.components = key)

/-- The spelling of `js` that was met first, which is `js` itself if there is no other. -/
def firstSpelling (met : List Pathname) (js : Pathname) : Pathname :=
  (firstWith? met js.components).getD js

theorem components_firstSpelling (met : List Pathname) (js : Pathname) :
    (firstSpelling met js).components = js.components := by
  unfold firstSpelling firstWith?
  cases h : met.find? (·.components = js.components) with
  | none => rfl
  | some p => simpa using List.find?_some h

theorem firstWith?_concat (met : List Pathname) (js : Pathname) (key : List Component) :
    firstWith? (met ++ [js]) key =
      if js.components = key then some (firstSpelling met js) else firstWith? met key := by
  unfold firstSpelling firstWith?
  rw [List.find?_append, List.find?_singleton]
  split
  · next h =>
    rw [if_pos (of_decide_eq_true h), of_decide_eq_true h]
    cases met.find? (·.components = key) <;> rfl
  · next h =>
    rw [if_neg (by simpa using h), Option.or_none]

/-- A table holds what was looked up at the first spellings of the paths `met`, where there was
something to look up. -/
def Recalls {α : Type} (table : Table (List Component) α) (look : Pathname → Option α)
    (met : List Pathname) : Prop :=
  ∀ key, table.get? key = (firstWith? met key).bind look

section Recalls

variable {α : Type} {table : Table (List Component) α} {look : Pathname → Option α}
  {met : List Pathname} {js : Pathname} {a : α}

theorem recalls_empty (look : Pathname → Option α) : Recalls .empty look [] := fun _ => rfl

/-- Where there is nothing to look up, nothing needs to be kept. -/
theorem Recalls.skip (h : Recalls table look met) (hlook : look (firstSpelling met js) = none) :
    Recalls table look (met ++ [js]) := by
  intro key
  rw [h, firstWith?_concat]
  split
  · next hkey =>
    subst hkey
    rw [Option.bind_some, hlook]
    unfold firstSpelling at hlook
    cases hmet : firstWith? met js.components with
    | none => rfl
    | some p => rwa [hmet] at hlook
  · rfl

/-- What was looked up once is there; what was not is at `js` itself, and can be kept. -/
theorem Recalls.once (h : Recalls table look met) (hlook : look (firstSpelling met js) = some a) :
    table.get? js.components = some a ∧ Recalls table look (met ++ [js]) ∨
      table.get? js.components = none ∧ firstSpelling met js = js ∧
        Recalls (table.insert js.components a) look (met ++ [js]) := by
  have hkeep : ∀ key, js.components ≠ key →
      (firstWith? (met ++ [js]) key).bind look = table.get? key := by
    intro key hkey
    rw [firstWith?_concat, if_neg hkey, h]
  have hhere : (firstWith? (met ++ [js]) js.components).bind look = some a := by
    rw [firstWith?_concat, if_pos rfl, Option.bind_some, hlook]
  have hget := h js.components
  unfold firstSpelling at hlook ⊢
  cases hmet : firstWith? met js.components with
  | some p =>
    rw [hmet] at hlook hget
    have hknown : table.get? js.components = some a := hget.trans hlook
    refine .inl ⟨hknown, fun key => ?_⟩
    by_cases hkey : js.components = key
    · rw [← hkey, hknown, hhere]
    · exact (hkeep key hkey).symm
  | none =>
    rw [hmet] at hget
    refine .inr ⟨hget, rfl, fun key => ?_⟩
    rw [Table.get?_insert]
    split
    · next hkey => rw [← hkey, hhere]
    · next hkey => exact (hkeep key hkey).symm

end Recalls

/-! ## Many frames -/

namespace Tracer

variable {t : Tree} {r : Tracer} {met : List Pathname} {js : Pathname}

/-- A tracer knows of the generated files it met what lies beside their first spellings; a map is
only looked for beside a source. -/
structure Knows (t : Tree) (met : List Pathname) (r : Tracer) : Prop where
  declared : Recalls r.declared (fun js => some (declaredBeside t js)) met
  maps : Recalls r.maps (fun js => (declaredBeside t js).map fun _ => mapBeside t js) met

theorem knows_fresh (t : Tree) (out : Pathname) : Knows t [] (fresh out) :=
  ⟨recalls_empty _, recalls_empty _⟩

theorem lookDeclared_of_recalls
    (h : Recalls r.declared (fun js => some (declaredBeside t js)) met) (js : Pathname) :
    ∃ table, r.lookDeclared t js =
        (declaredBeside t (firstSpelling met js), { r with declared := table }) ∧
      Recalls table (fun js => some (declaredBeside t js)) (met ++ [js]) := by
  unfold lookDeclared
  have hlook : some (declaredBeside t (firstSpelling met js)) =
      some (declaredBeside t (firstSpelling met js)) := rfl
  rcases h.once hlook with ⟨hget, hkept⟩ | ⟨hget, hfirst, hkept⟩
  · exact ⟨r.declared, by rw [hget], hkept⟩
  · refine ⟨_, ?_, hkept⟩
    rw [hget, hfirst]
    rfl

theorem lookMap_of_recalls {look : Pathname → Option (Option Map)}
    (h : Recalls r.maps look met)
    (hlook : look (firstSpelling met js) = some (mapBeside t (firstSpelling met js))) :
    ∃ table, r.lookMap t js = (mapBeside t (firstSpelling met js), { r with maps := table }) ∧
      Recalls table look (met ++ [js]) := by
  unfold lookMap
  rcases h.once hlook with ⟨hget, hkept⟩ | ⟨hget, hfirst, hkept⟩
  · exact ⟨r.maps, by rw [hget], hkept⟩
  · refine ⟨_, ?_, hkept⟩
    rw [hget, hfirst]
    rfl

/-- A frame is shown from what lies beside the first spelling of its file. -/
theorem frame_of_knows (h : Knows t met r) (f : Frame) :
    (r.frame t f).1 = lineFrom t (firstSpelling met (r.outputDir.join f.file)) f ∧
      (r.frame t f).2.outputDir = r.outputDir ∧
        Knows t (met ++ [r.outputDir.join f.file]) (r.frame t f).2 := by
  generalize hjs : r.outputDir.join f.file = js
  obtain ⟨declared, hdeclared, hkept⟩ := lookDeclared_of_recalls h.declared js
  unfold frame lineFrom
  simp only [hjs, hdeclared]
  cases hsource : declaredBeside t (firstSpelling met js) with
  | none =>
    refine ⟨rfl, rfl, hkept, h.maps.skip ?_⟩
    simp only [hsource, Option.map_none]
  | some source =>
    have hlook : (declaredBeside t (firstSpelling met js)).map
        (fun _ => mapBeside t (firstSpelling met js)) =
          some (mapBeside t (firstSpelling met js)) := by rw [hsource, Option.map_some]
    obtain ⟨maps, hmaps, hkept'⟩ :=
      lookMap_of_recalls (r := { r with declared := declared }) h.maps hlook
    simp only [hmaps]
    refine ⟨?_, trivial, hkept, hkept'⟩
    cases f.function <;> rfl

/-- The generated files of frames. -/
def files (out : Pathname) (fs : List Frame) : List Pathname := fs.map fun f => out.join f.file

/-- After any frames a tracer knows of their files what lies beside their first spellings. -/
theorem frames_of_knows (h : Knows t met r) (fs : List Frame) :
    (r.frames t fs).2.outputDir = r.outputDir ∧
      Knows t (met ++ files r.outputDir fs) (r.frames t fs).2 := by
  induction fs generalizing r met with
  | nil => exact ⟨rfl, by simpa [files, frames] using h⟩
  | cons f fs ih =>
    obtain ⟨-, hout, hknows⟩ := frame_of_knows h f
    obtain ⟨hout', hknows'⟩ := ih hknows
    refine ⟨hout'.trans hout, ?_⟩
    rw [hout, List.append_assoc] at hknows'
    exact hknows'

/-- Frames can be printed in two goes. -/
theorem frames_append (r : Tracer) (t : Tree) (fs gs : List Frame) :
    r.frames t (fs ++ gs) =
      ((r.frames t fs).1 ++ ((r.frames t fs).2.frames t gs).1,
        ((r.frames t fs).2.frames t gs).2) := by
  induction fs generalizing r with
  | nil => simp [frames]
  | cons f fs ih =>
    simp only [List.cons_append, frames, ih, String.append_assoc]

end Tracer

/-! ## Lines told apart -/

theorem colon_not_mem_toDigits (n : Nat) : ':' ∉ Nat.toDigits 10 n := by
  intro h
  have hdigit := Text.isDigit_of_mem_toDigits_ten h
  revert hdigit
  decide

theorem place_inj {file file' : String} {pos pos' : Position}
    (h : file ++ ":" ++ pos.render = file' ++ ":" ++ pos'.render) : file = file' ∧ pos = pos' := by
  obtain ⟨line, column⟩ := pos
  obtain ⟨line', column'⟩ := pos'
  have hchars : (file.toList ++ ':' :: Nat.toDigits 10 line) ++ ':' :: Nat.toDigits 10 column =
      (file'.toList ++ ':' :: Nat.toDigits 10 line') ++ ':' :: Nat.toDigits 10 column' := by
    simpa [Position.render] using congrArg String.toList h
  obtain ⟨hfront, hcolumn⟩ :=
    Text.append_mark_inj_last (colon_not_mem_toDigits _) (colon_not_mem_toDigits _) hchars
  obtain ⟨hfile, hline⟩ :=
    Text.append_mark_inj_last (colon_not_mem_toDigits _) (colon_not_mem_toDigits _) hfront
  rw [Text.toDigits_ten_inj hline, Text.toDigits_ten_inj hcolumn]
  exact ⟨String.toList_inj.mp hfile, rfl⟩

/-- The line of a function names its file and its position. -/
theorem frameText_some_inj {function file file' : String} {pos pos' : Position} :
    frameText (some function) file pos = frameText (some function) file' pos' ↔
      file = file' ∧ pos = pos' := by
  refine ⟨fun h => ?_, fun ⟨hfile, hpos⟩ => by rw [hfile, hpos]⟩
  have hchars := congrArg String.toList h
  simp only [frameText, String.toList_append, List.append_assoc,
    List.append_cancel_left_eq] at hchars
  simp only [← List.append_assoc, List.append_cancel_right_eq] at hchars
  exact place_inj (by simpa [← String.toList_inj] using hchars)

/-! ## Files beside one generated file -/

theorem load?_congr {t : Tree} {p q : Pathname}
    (h : (t.readText p).toOption = (t.readText q).toOption) :
    ∃ ns : Option String, Declared.load? t p = ns.map (⟨·, p⟩) ∧
      Declared.load? t q = ns.map (⟨·, q⟩) := by
  have hnone : ∀ {file e}, t.readText file = .error e → Declared.load? t file = none :=
    fun hfile => by simp only [Declared.load?, hfile]
  cases hp : t.readText p with
  | error e =>
    cases hq : t.readText q with
    | error e' => exact ⟨none, hnone hp, hnone hq⟩
    | ok text => simp [hp, hq, Except.toOption] at h
  | ok text =>
    cases hq : t.readText q with
    | error e => simp [hp, hq, Except.toOption] at h
    | ok text' =>
      obtain rfl : text = text' := by simpa [hp, hq, Except.toOption] using h
      exact ⟨_, load?_of_text hp, load?_of_text hq⟩

/-- Which namespace is declared beside a generated file does not depend on the spelling. -/
theorem declaredBeside_congr {t : Tree} (hroot : t.Rooted) {p q : Pathname}
    (h : p.components = q.components) :
    ∃ ns : Option String,
      declaredBeside t p = ns.map (⟨·, p.withExtension "cljs"⟩) ∧
        declaredBeside t q = ns.map (⟨·, q.withExtension "cljs"⟩) :=
  load?_congr (Tree.readText_withExtension hroot h (by decide) (by decide))

/-- `p` and `q` lead from a generated position to the same place, shown the same. -/
def ShowAlike (t : Tree) (p q : Pathname) (pos : Position) : Prop :=
  shownPath t (p.withExtension "cljs") = shownPath t (q.withExtension "cljs") ∧
    sourcePosition (mapBeside t p) pos = sourcePosition (mapBeside t q) pos

instance (t : Tree) (p q : Pathname) (pos : Position) : Decidable (ShowAlike t p q pos) :=
  inferInstanceAs (Decidable (_ ∧ _))

/-- Two spellings of a generated file give the same line for a frame exactly if they show its
place alike, unless no namespace is declared there. -/
theorem lineFrom_eq_iff {t : Tree} (hroot : t.Rooted) {p q : Pathname}
    (h : p.components = q.components) (f : Frame) :
    lineFrom t p f = lineFrom t q f ↔
      (declaredBeside t q ≠ none → ShowAlike t p q f.position) := by
  obtain ⟨ns, hp, hq⟩ := declaredBeside_congr hroot h
  unfold lineFrom
  rw [hp, hq]
  cases ns with
  | none => simp
  | some ns => simp [frameText_some_inj, ShowAlike]

/-- The next frame after any frames is shown from what lies beside the first spelling. -/
theorem frame_after (t : Tree) (out : Pathname) (fs : List Frame) (f : Frame) :
    (((Tracer.fresh out).frames t fs).2.frame t f).1 =
      lineFrom t (firstSpelling (Tracer.files out fs) (out.join f.file)) f := by
  obtain ⟨hout, hknows⟩ := Tracer.frames_of_knows (Tracer.knows_fresh t out) fs
  obtain ⟨hline, -, -⟩ := Tracer.frame_of_knows hknows f
  rw [hout] at hline
  exact hline

theorem frame_fresh (t : Tree) (out : Pathname) (f : Frame) :
    ((Tracer.fresh out).frame t f).1 = lineFrom t (out.join f.file) f :=
  frame_after t out [] f

/-- After frames that spell the file as it does, or name other files, a frame gives the line that
it would give alone. -/
theorem frame_fresh_of_same_spelling (t : Tree) (out : Pathname) (fs : List Frame) (f : Frame)
    (h : ∀ g ∈ fs, (out.join g.file).components = (out.join f.file).components →
      out.join g.file = out.join f.file) :
    (((Tracer.fresh out).frames t fs).2.frame t f).1 = ((Tracer.fresh out).frame t f).1 := by
  have hfirst : firstSpelling (Tracer.files out fs) (out.join f.file) = out.join f.file := by
    unfold firstSpelling firstWith?
    cases hfind : (Tracer.files out fs).find?
        (·.components = (out.join f.file).components) with
    | none => rfl
    | some p =>
      obtain ⟨g, hg, rfl⟩ := List.mem_map.mp (List.mem_of_find?_eq_some hfind)
      exact h g hg (by simpa using List.find?_some hfind)
  rw [frame_after, frame_fresh, hfirst]

/-- After any frames the next one gives the line that it would give alone, exactly if no namespace
is declared beside its file, or the first spelling of the file among all these frames shows its
place in the same way. -/
theorem frame_fresh_iff {t : Tree} (hroot : t.Rooted) (out : Pathname) (fs : List Frame)
    (f : Frame) :
    let js := out.join f.file
    let line := (((Tracer.fresh out).frames t fs).2.frame t f).1
    ((Tracer.fresh out).frames t (fs ++ [f])).1 =
        ((Tracer.fresh out).frames t fs).1 ++ (line ++ "\n") ∧
      (line = ((Tracer.fresh out).frame t f).1 ↔
        (declaredBeside t js ≠ none →
          ShowAlike t (firstSpelling (Tracer.files out fs) js) js f.position)) := by
  intro js line
  refine ⟨?_, ?_⟩
  · rw [Tracer.frames_append]
    simp [Tracer.frames, line]
  · rw [frame_fresh, ← lineFrom_eq_iff hroot (components_firstSpelling _ _), ← frame_after]

/-- A frame without function, at the start of a file. -/
def plainFrame (file : String) : Frame := ⟨file, none, 1, 1⟩

theorem declaredBeside_tracedTree :
    declaredBeside tracedTree ⟨"out/app/core.js"⟩ =
      some ⟨"app.core", ⟨"out/app/core.cljs"⟩⟩ := by
  have hsource : (Pathname.mk "out/app/core.js").withExtension "cljs" = ⟨"out/app/core.cljs"⟩ := by
    decide +kernel
  rw [declaredBeside, hsource, load?_tracedTree]

/-- A slash at the end of a file that has no map is not shown. -/
theorem frame_fresh_slash :
    tracedTree.Rooted ∧
      (((Tracer.fresh ⟨"out"⟩).frames tracedTree [plainFrame "app/core.js"]).2.frame tracedTree
        (plainFrame "app/core.js/")).1 =
      ((Tracer.fresh ⟨"out"⟩).frame tracedTree (plainFrame "app/core.js/")).1 := by
  have hroot : tracedTree.Rooted := by decide +kernel
  obtain ⟨-, halone⟩ := frame_fresh_iff hroot ⟨"out"⟩ [plainFrame "app/core.js"]
    (plainFrame "app/core.js/")
  refine ⟨hroot, halone.mpr fun _ => ?_⟩
  decide +kernel

theorem lineFrom_of_declared {t : Tree} {js : Pathname} {f : Frame} {source : Declared}
    (h : declaredBeside t js = some source) :
    lineFrom t js f = frameText (some (qualifiedName source.ns f.function))
      (shownPath t source.path) (sourcePosition (mapBeside t js) f.position) := by
  unfold lineFrom
  rw [h]

/-- A dot on the way to a file is not shown if the file was met without it. -/
theorem frame_after_other_spelling :
    (((Tracer.fresh ⟨"out"⟩).frames tracedTree [plainFrame "app/core.js"]).2.frame tracedTree
        (plainFrame "app/./core.js")).1 = "\tapp.core (out/app/core.cljs:1:1)" ∧
      ((Tracer.fresh ⟨"out"⟩).frame tracedTree (plainFrame "app/./core.js")).1 =
        "\tapp.core (out/app/./core.cljs:1:1)" := by
  have hjs : (Pathname.mk "out").join (plainFrame "app/./core.js").file =
      ⟨"out/app/./core.js"⟩ := by decide +kernel
  have hfirst : firstSpelling (Tracer.files ⟨"out"⟩ [plainFrame "app/core.js"])
      ⟨"out/app/./core.js"⟩ = ⟨"out/app/core.js"⟩ := by decide +kernel
  obtain ⟨ns, hknown, hdotted⟩ := declaredBeside_congr (t := tracedTree) (by decide +kernel)
    (p := ⟨"out/app/core.js"⟩) (q := ⟨"out/app/./core.js"⟩) (by decide +kernel)
  obtain ⟨name, rfl, hname⟩ := Option.map_eq_some_iff.mp
    (hknown.symm.trans declaredBeside_tracedTree)
  obtain rfl : name = "app.core" := congrArg Declared.ns hname
  rw [frame_after, frame_fresh, hjs, hfirst, lineFrom_of_declared declaredBeside_tracedTree,
    lineFrom_of_declared hdotted]
  exact ⟨by decide +kernel, by decide +kernel⟩

end LiveLisp.SourceMap
