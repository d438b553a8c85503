import WasmBuild.Proofs.Within

/-! The laws of the lexical clean-up. What is left has no idle components, and steps up only at the
start of a relative path; it is clean already, and paths that are joined may be cleaned up one after
the other. -/

namespace WasmBuild.Path

/-- The components among pieces that stand behind the pieces `outer`, listed innermost first. -/
def componentsAfter (absolute : Bool) : List Piece → List Piece → List Piece
  | _, [] => []
  | outer, piece :: rest =>
    let inner := componentsAfter absolute (piece :: outer) rest
    if isComponent absolute piece outer then piece :: inner else inner

/-- The components of a path without its root. -/
def components (p : Path) : List Piece := componentsAfter p.isAbsolute [] p.pieces

/-- Components of which none is idle, with steps up only at the start of a relative path. -/
structure IsTidy (absolute : Bool) (ps : List Piece) : Prop where
  dot : ['.'] ∉ ps
  absolute_up : absolute = true → up ∉ ps
  relative_up : absolute = false → ∃ ups down, ps = List.replicate ups up ++ down ∧ up ∉ down

section Components

variable {absolute : Bool} {outer ps : List Piece} {p : Path}

theorem componentsAfter_of_ne_nil (h : outer ≠ []) :
    componentsAfter absolute outer ps = ps.filter fun piece => !isIdle piece := by
  induction ps generalizing outer with
  | nil => rfl
  | cons piece rest ih =>
    have hcomponent : isComponent absolute piece outer = !isIdle piece := by
      simp [isComponent, h]
    have hrest := @ih (piece :: outer) (by simp)
    simp [componentsAfter, hcomponent, hrest, List.filter_cons]

theorem componentsAfter_of_not_idle (h : ∀ piece ∈ ps, isIdle piece = false) :
    componentsAfter absolute outer ps = ps := by
  induction ps generalizing outer with
  | nil => rfl
  | cons piece rest ih =>
    have hrest := @ih (piece :: outer) fun other hm => h other (by simp [hm])
    simp [componentsAfter, isComponent, h piece, hrest]

/-- The components are the names and the steps up, perhaps behind a lone `.`. -/
theorem components_cases (p : Path) :
    p.components = p.names ∨ p.components = ['.'] :: p.names := by
  rw [components, names]
  cases p.pieces with
  | nil => exact .inl rfl
  | cons first rest =>
    have hrest := @componentsAfter_of_ne_nil p.isAbsolute [first] rest (by simp)
    cases hidle : isIdle first with
    | false =>
      left
      simp [componentsAfter, isComponent, hrest, hidle]
    | true =>
      by_cases hfirst : isComponent p.isAbsolute first [] = true
      · have hdot : first = ['.'] := by
          simp [isComponent, hidle] at hfirst
          exact hfirst.2
        subst hdot
        right
        simp [componentsAfter, hfirst, hrest, hidle]
      · left
        simp [componentsAfter, hfirst, hrest, hidle]

theorem components_ofPieces (h : Written absolute ps)
    (hidle : ∀ piece ∈ ps, isIdle piece = false) : (ofPieces absolute ps).components = ps := by
  by_cases hne : ps = []
  · subst hne
    cases absolute <;> decide
  · rw [components, pieces_ofPieces h hne, componentsAfter_of_not_idle hidle]

theorem components_eq_names (h : ['.'] ∉ p.components) : p.components = p.names := by
  rcases components_cases p with hp | hp
  · exact hp
  · simp [hp] at h

end Components

section Tidy

variable {absolute : Bool} {ps : List Piece}

theorem tidy_replicate_up (ups more : Nat) :
    tidy false (List.replicate ups up) (List.replicate more up) =
      List.replicate (ups + more) up := by
  induction more generalizing ups with
  | zero => rfl
  | succ more ih =>
    have hstep := tidy_above false ups (List.replicate more up)
    simp only [above, Bool.false_eq_true, if_false] at hstep
    rw [List.replicate_succ, hstep, ih, Nat.add_right_comm, Nat.add_assoc]

/-- Nothing is left to do on pieces that are tidy. -/
theorem IsTidy.tidy_eq (h : IsTidy absolute ps)
    (hps : ∀ piece ∈ ps, isIdle piece = false ∧ '/' ∉ piece) : tidy absolute [] ps = ps.reverse := by
  cases absolute with
  | true =>
    have hup := h.absolute_up rfl
    have hnames : ∀ piece ∈ ps, IsName piece := by
      intro piece hm
      exact ⟨(hps piece hm).1, fun heq => hup (heq ▸ hm), (hps piece hm).2⟩
    rw [tidy_names hnames, List.append_nil]
  | false =>
    obtain ⟨ups, down, rfl, hdown⟩ := h.relative_up rfl
    have hnames : ∀ piece ∈ down, IsName piece := by
      intro piece hm
      obtain ⟨hidle, hslash⟩ := hps piece (by simp [hm])
      exact ⟨hidle, fun heq => hdown (heq ▸ hm), hslash⟩
    have hups := tidy_replicate_up 0 ups
    rw [List.replicate_zero, Nat.zero_add] at hups
    rw [tidy_append, hups, tidy_names hnames, List.reverse_append, List.reverse_replicate]

theorem not_idle_of_mem_names {p : Path} {piece : Piece} (h : piece ∈ p.names) :
    isIdle piece = false ∧ '/' ∉ piece := by
  obtain ⟨hpiece, hidle⟩ := List.mem_filter.mp h
  exact ⟨by simpa using hidle, slash_not_mem_of_mem_pieces hpiece⟩

end Tidy

section Laws

variable {p q : Path}

theorem isAbsolute_normalize (p : Path) : p.normalize.isAbsolute = p.isAbsolute :=
  isAbsolute_ofPieces (written_tidy p)

/-- The clean-up looks at nothing but the names of a path, and cares for what is left of them. -/
theorem normalize_congr (habs : p.isAbsolute = q.isAbsolute)
    (h : tidy q.isAbsolute [] p.names = tidy q.isAbsolute [] q.names) :
    p.normalize = q.normalize := by
  have htidy (r : Path) : tidy r.isAbsolute [] r.pieces = tidy r.isAbsolute [] r.names :=
    (tidy_filter _ _ _).symm
  rw [normalize, normalize, htidy, htidy, habs, h]

theorem isTidy_names_normalize (p : Path) : IsTidy p.isAbsolute p.normalize.names := by
  obtain ⟨down, ups, hdown, htidy⟩ := tidy_relative p.names
  have hnames : p.normalize.names = (above p.isAbsolute ups).reverse ++ down.reverse := by
    rw [names_normalize, htidy p.isAbsolute [] nofun]
    simp
  have hup : up ∉ down.reverse := fun hm => hdown up (List.mem_reverse.mp hm) rfl
  refine ⟨fun hm => ?_, fun habs => ?_, fun hrel => ?_⟩
  · exact absurd (not_idle_of_mem_names hm).1 (by decide)
  · simpa [hnames, habs, above] using hup
  · refine ⟨ups, down.reverse, ?_, hup⟩
    simp [hnames, hrel, above]

theorem components_normalize (p : Path) : p.normalize.components = p.normalize.names := by
  have hidle : ∀ piece ∈ (tidy p.isAbsolute [] p.pieces).reverse, isIdle piece = false := by
    intro piece hm
    exact ((mem_tidy (List.mem_reverse.mp hm)).resolve_left List.not_mem_nil).2
  rw [normalize, components_ofPieces (written_tidy p) hidle, names_ofPieces (written_tidy p) hidle]

theorem tidy_names_normalize (p : Path) :
    tidy p.isAbsolute [] p.normalize.names = tidy p.isAbsolute [] p.names := by
  have htidy := (isTidy_names_normalize p).tidy_eq fun _ hm => not_idle_of_mem_names hm
  rw [htidy, names_normalize, List.reverse_reverse]

theorem normalize_normalize (p : Path) : p.normalize.normalize = p.normalize :=
  normalize_congr (isAbsolute_normalize p) (tidy_names_normalize p)

theorem components_normalize_of_isTidy (h : IsTidy p.isAbsolute p.components) :
    p.normalize.components = p.components := by
  have hnames := components_eq_names h.dot
  rw [hnames] at h ⊢
  rw [components_normalize, names_normalize, h.tidy_eq fun _ hm => not_idle_of_mem_names hm,
    List.reverse_reverse]

/-- What stands before a relative path may be cleaned up first. -/
theorem normalize_join (a b : Path) : (a.join b).normalize = (a.normalize.join b).normalize := by
  cases hb : b.isAbsolute with
  | true => rw [join_of_isAbsolute hb, join_of_isAbsolute hb]
  | false =>
    have habs : (a.join b).isAbsolute = a.isAbsolute := isAbsolute_join_of_relative hb
    have habs' : (a.normalize.join b).isAbsolute = a.isAbsolute :=
      (isAbsolute_join_of_relative hb).trans (isAbsolute_normalize a)
    refine normalize_congr (habs.trans habs'.symm) ?_
    rw [habs', names_join hb, names_join hb, tidy_append, tidy_append, tidy_names_normalize]

theorem resolve_eq_normalize_join (base p : Path) : base.resolve p = (base.join p).normalize := by
  cases hp : p.isAbsolute with
  | true => rw [resolve, if_pos hp, join_of_isAbsolute hp]
  | false => rw [resolve, hp, if_neg (by decide)]

theorem resolve_resolve (base p q : Path) :
    (base.resolve p).resolve q = base.resolve (p.join q) := by
  rw [resolve_eq_normalize_join, resolve_eq_normalize_join, resolve_eq_normalize_join,
    ← normalize_join, join_assoc]

/-- The clean-up keeps a path absolute or relative, leaves it tidy, and leaves a tidy one with the
components that it has. It may be done at every join or once at the end. -/
theorem normalize_laws :
    (∀ p : Path, p.normalize.isAbsolute = p.isAbsolute ∧
      IsTidy p.isAbsolute p.normalize.components ∧
      p.normalize.normalize = p.normalize ∧
      (IsTidy p.isAbsolute p.components → p.normalize.components = p.components)) ∧
    (∀ a b : Path, (a.join b).normalize = (a.normalize.join b).normalize) ∧
    ∀ base p q : Path, (base.resolve p).resolve q = base.resolve (p.join q) := by
  refine ⟨fun p => ⟨isAbsolute_normalize p, ?_, normalize_normalize p, fun h => ?_⟩,
    normalize_join, resolve_resolve⟩
  · rw [components_normalize]
    exact isTidy_names_normalize p
  · exact components_normalize_of_isTidy h

/-- A path that is tidy but for its slashes. -/
theorem normalize_laws_sample :
    let p : Path := ⟨"..//a/b/"⟩
    IsTidy p.isAbsolute p.components ∧ p.normalize.components = p.components ∧
      p.normalize = ⟨"../a/b"⟩ := by
  intro p
  have htidy : IsTidy p.isAbsolute p.components := by
    refine ⟨by decide +kernel, fun habs => absurd habs (by decide +kernel), fun _ => ?_⟩
    exact ⟨1, [['a'], ['b']], by decide +kernel, by decide⟩
  exact ⟨htidy, (normalize_laws.1 p).2.2.2 htidy, by decide +kernel⟩

end Laws

end WasmBuild.Path
