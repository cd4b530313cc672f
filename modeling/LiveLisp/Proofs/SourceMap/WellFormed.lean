import LiveLisp.SourceMap.Codec
/-!
# Well-formed source maps

The maps that mappings or a JSON text give rise to: keys ascend, no line and no column is without
source positions, and every coordinate fits in 32 bits.
-/

namespace LiveLisp.SourceMap

open Script (Mapping)

/-! ## Ascending keys -/

section Ascending

variable {α : Type}

/-- Every key is less than the keys after it. -/
def Ascending.Sorted (xs : Ascending α) : Prop := xs.Pairwise fun a b => a.1 < b.1

theorem Ascending.mem_modify {fresh : α} {key : Nat} {f : α → α} {xs : Ascending α}
    {e : Nat × α} (he : e ∈ Ascending.modify fresh key f xs) :
    e ∈ xs ∨ e = (key, f fresh) ∨ ∃ v, (key, v) ∈ xs ∧ e = (key, f v) := by
  induction xs with
  | nil => exact .inr (.inl (by simpa [Ascending.modify] using he))
  | cons x xs ih =>
    obtain ⟨k, v⟩ := x
    simp only [Ascending.modify] at he
    split at he
    · next hk =>
      subst hk
      rcases List.mem_cons.mp he with rfl | he
      · exact .inr (.inr ⟨v, by simp, rfl⟩)
      · exact .inl (by simp [he])
    · split at he
      · rcases List.mem_cons.mp he with rfl | he
        · exact .inr (.inl rfl)
        · exact .inl he
      · rcases List.mem_cons.mp he with rfl | he
        · exact .inl (by simp)
        · rcases ih he with h | h | ⟨w, hw, h⟩
          · exact .inl (by simp [h])
          · exact .inr (.inl h)
          · exact .inr (.inr ⟨w, by simp [hw], h⟩)

theorem Ascending.Sorted.modify {fresh : α} {key : Nat} {f : α → α} {xs : Ascending α}
    (h : Ascending.Sorted xs) : Ascending.Sorted (Ascending.modify fresh key f xs) := by
  induction xs with
  | nil => simp [Ascending.modify, Ascending.Sorted]
  | cons x xs ih =>
    obtain ⟨k, v⟩ := x
    obtain ⟨hhead, htail⟩ := List.pairwise_cons.mp h
    simp only [Ascending.modify]
    split
    · exact List.pairwise_cons.mpr ⟨hhead, htail⟩
    · split
      · next hlt =>
        refine List.pairwise_cons.mpr ⟨?_, h⟩
        intro e he
        rcases List.mem_cons.mp he with rfl | he
        · exact hlt
        · exact Nat.lt_trans hlt (hhead e he)
      · next hne hge =>
        refine List.pairwise_cons.mpr ⟨?_, ih htail⟩
        intro e he
        rcases Ascending.mem_modify he with he | rfl | ⟨w, -, rfl⟩
        · exact hhead e he
        · change k < key
          omega
        · change k < key
          omega

/-- A key that is not less than those of `xs` is looked for behind them. -/
theorem Ascending.modify_append {fresh : α} {key : Nat} {f : α → α} {xs ys : Ascending α}
    (h : ∀ e ∈ xs, e.1 < key) :
    Ascending.modify fresh key f (xs ++ ys) = xs ++ Ascending.modify fresh key f ys := by
  induction xs with
  | nil => rfl
  | cons x xs ih =>
    have hx : x.1 < key := h x (by simp)
    rw [List.cons_append, Ascending.modify, if_neg (by omega), if_neg (by omega),
      ih (fun e he => h e (by simp [he]))]
    rfl

end Ascending

/-! ## Invariant of maps -/

/-- The coordinates of a source position fit in 32 bits. -/
structure SourcePoint.Fits (o : SourcePoint) : Prop where
  source : o.source < bound32
  line : o.line < bound32
  column : o.column < bound32

/-- The columns of one generated line. -/
structure WellFormedColumns (columns : Ascending (List SourcePoint)) : Prop where
  sorted : Ascending.Sorted columns
  fits : ∀ c ∈ columns, c.1 < bound32 ∧ c.2 ≠ [] ∧ ∀ o ∈ c.2, o.Fits

/-- What every map that is built up from nothing satisfies. -/
structure Map.WellFormed (m : Map) : Prop where
  sorted : Ascending.Sorted m.lines
  fits : ∀ l ∈ m.lines, l.1 < bound32 ∧ l.2 ≠ [] ∧ WellFormedColumns l.2

theorem Ascending.modify_ne_nil {α : Type} {fresh : α} {key : Nat} {f : α → α}
    (xs : Ascending α) : Ascending.modify fresh key f xs ≠ [] := by
  cases xs with
  | nil => simp [Ascending.modify]
  | cons x xs =>
    obtain ⟨k, v⟩ := x
    simp only [Ascending.modify]
    repeat' split
    all_goals simp

theorem WellFormedColumns.insert {columns : Ascending (List SourcePoint)}
    (h : WellFormedColumns columns) {column : Nat} (hcolumn : column < bound32)
    {o : SourcePoint} (ho : o.Fits) :
    WellFormedColumns (Ascending.modify [] column (· ++ [o]) columns) := by
  refine ⟨h.sorted.modify, ?_⟩
  intro c hc
  rcases Ascending.mem_modify hc with hc | rfl | ⟨os, hos, rfl⟩
  · exact h.fits c hc
  · exact ⟨hcolumn, by simp, by simpa using ho⟩
  · obtain ⟨-, -, hfits⟩ := h.fits _ hos
    refine ⟨hcolumn, by simp, ?_⟩
    intro p hp
    rcases List.mem_append.mp hp with hp | hp
    · exact hfits p hp
    · rw [List.mem_singleton.mp hp]
      exact ho

theorem Map.WellFormed.insert {m : Map} (h : m.WellFormed) {line column : Nat}
    (hline : line < bound32) (hcolumn : column < bound32) {o : SourcePoint} (ho : o.Fits) :
    (m.insert line column o).WellFormed := by
  refine ⟨h.sorted.modify, ?_⟩
  intro l hl
  have hfresh : WellFormedColumns [] := ⟨List.Pairwise.nil, by simp⟩
  rcases Ascending.mem_modify hl with hl | rfl | ⟨columns, hcolumns, rfl⟩
  · exact h.fits l hl
  · exact ⟨hline, Ascending.modify_ne_nil _, hfresh.insert hcolumn ho⟩
  · obtain ⟨-, -, hwell⟩ := h.fits _ hcolumns
    exact ⟨hline, Ascending.modify_ne_nil _, hwell.insert hcolumn ho⟩

theorem Map.wellFormed_empty (file : Option String) (sources : List String) :
    (Map.mk file sources []).WellFormed :=
  ⟨List.Pairwise.nil, by simp⟩

theorem Map.WellFormed.named {m : Map} (h : m.WellFormed) (file : Option String)
    (sources : List String) : (Map.mk file sources m.lines).WellFormed :=
  ⟨h.sorted, h.fits⟩

/-! ## Maps from mappings -/

/-- The coordinates of a mapping fit in 32 bits. -/
structure MappingFits (g : Mapping) : Prop where
  genLine : g.genLine < bound32
  genColumn : g.genColumn < bound32
  srcLine : g.srcLine < bound32
  srcColumn : g.srcColumn < bound32

theorem Map.wellFormed_ofMappings (source : String) {mappings : List Mapping}
    (h : ∀ g ∈ mappings, MappingFits g) : (Map.ofMappings source mappings).WellFormed := by
  have hrun : ∀ m : Map, m.WellFormed → (mappings.foldl
      (fun m g => m.insert g.genLine g.genColumn ⟨0, g.srcLine, g.srcColumn, g.name⟩)
      m).WellFormed := by
    induction mappings with
    | nil => exact fun m hm => hm
    | cons g rest ih =>
      intro m hm
      obtain ⟨hgl, hgc, hsl, hsc⟩ := h g (by simp)
      have hfits : SourcePoint.Fits ⟨0, g.srcLine, g.srcColumn, g.name⟩ :=
        ⟨by simp [bound32], hsl, hsc⟩
      exact ih (fun e he => h e (by simp [he])) _ (hm.insert hgl hgc hfits)
  exact hrun _ (Map.wellFormed_empty none [source])

/-! ## Maps from JSON -/

theorem word32_lt (n : Int) : word32 n < bound32 := by
  unfold word32 bound32
  omega

theorem Previous.fits_of_step {p q : Previous} {names : List String} {column source line col : Int}
    {name : Option Int} {o : SourcePoint}
    (h : p.step names column source line col name = .ok (q, o)) : o.Fits := by
  unfold Previous.step at h
  simp only at h
  split at h
  · simp at h
  · split at h
    · simp at h
    · obtain ⟨-, rfl⟩ := Prod.mk.inj (Except.ok.inj h)
      exact ⟨word32_lt _, word32_lt _, word32_lt _⟩

theorem Builder.wellFormed_place {b b' : Builder} {names : List String} {line : Nat}
    {column source srcLine srcColumn column' : Int} {name : Option Int}
    (hb : b.map.WellFormed)
    (h : b.place names line column source srcLine srcColumn name = .ok (b', column')) :
    b'.map.WellFormed := by
  unfold Builder.place at h
  split at h
  · simp at h
  · next p o hstep =>
    obtain ⟨rfl, -⟩ := Prod.mk.inj (Except.ok.inj h)
    exact hb.insert (Nat.mod_lt _ (by decide)) (word32_lt _) (Previous.fits_of_step hstep)

theorem Builder.wellFormed_addValues {b b' : Builder} {names : List String} {line : Nat}
    {column column' : Int} {values : List Int} (hb : b.map.WellFormed)
    (h : b.addValues names line column values = .ok (b', column')) : b'.map.WellFormed := by
  unfold Builder.addValues at h
  split at h
  · obtain ⟨rfl, -⟩ := Prod.mk.inj (Except.ok.inj h)
    exact hb
  · exact Builder.wellFormed_place hb h
  · exact Builder.wellFormed_place hb h
  · simp at h

theorem Builder.wellFormed_addSegments {b b' : Builder} {names : List String} {line : Nat}
    {column : Int} {segments : List (List Char)} (hb : b.map.WellFormed)
    (h : b.addSegments names line column segments = .ok b') : b'.map.WellFormed := by
  induction segments generalizing b column with
  | nil =>
    obtain rfl := Except.ok.inj h
    exact hb
  | cons segment rest ih =>
    simp only [Builder.addSegments] at h
    split at h
    · exact ih hb h
    · split at h
      · next hstep =>
        split at hstep
        · exact ih (Builder.wellFormed_addValues hb hstep) h
        · simp at hstep
      · simp at h

theorem Builder.wellFormed_addLines {b b' : Builder} {names : List String} {line : Nat}
    {texts : List (List Char)} (hb : b.map.WellFormed)
    (h : b.addLines names line texts = .ok b') : b'.map.WellFormed := by
  induction texts generalizing b line with
  | nil =>
    obtain rfl := Except.ok.inj h
    exact hb
  | cons text rest ih =>
    simp only [Builder.addLines] at h
    split at h
    · next hline => exact ih (Builder.wellFormed_addSegments hb hline) h
    · simp at h

theorem Map.wellFormed_ofJson {text : String} {m : Map} (h : Map.ofJson text = .ok m) :
    m.WellFormed := by
  unfold Map.ofJson at h
  split at h
  · simp at h
  · split at h
    · simp at h
    · split at h
      · next hlines =>
        obtain rfl := Except.ok.inj h
        exact Builder.wellFormed_addLines (Map.wellFormed_empty _ _) hlines
      · simp at h

end LiveLisp.SourceMap
