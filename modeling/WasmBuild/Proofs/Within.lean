import WasmBuild.Proofs.Cleanup
import WasmBuild.Proofs.Obedience

/-! What lies inside a directory, as far as the texts of paths tell. The artifact is built inside
the target directory and delivered inside the results directory exactly when the names of the
target and of the artifact lead there; a plain name always does. -/

namespace WasmBuild

namespace Path

/-- The path lies strictly inside a directory: after the clean-up its components are those of the
directory, followed by at least one more. -/
def Within (p base : Path) : Prop :=
  p.isAbsolute = base.isAbsolute ∧ base.normalize.names <+: p.normalize.names ∧
    base.normalize.names ≠ p.normalize.names

instance (p base : Path) : Decidable (p.Within base) := inferInstanceAs (Decidable (_ ∧ _ ∧ _))

/-- How many directories a relative path leaves. -/
def climb (p : Path) : Nat := (p.normalize.names.takeWhile (· == up)).length

/-- The names along which a relative path goes down in the end. -/
def descent (p : Path) : List Piece := p.normalize.names.dropWhile (· == up)

/-- Taken from a directory, the path leads to something inside it. A relative path may leave
directories only to go down again along the same names. -/
def LeadsInto (p base : Path) : Prop :=
  if p.isAbsolute then p.Within base
  else
    let left := base.names.drop (base.names.length - p.climb)
    left <+: p.descent ∧ left ≠ p.descent

instance (p base : Path) : Decidable (p.LeadsInto base) :=
  inferInstanceAs (Decidable (if p.isAbsolute then p.Within base else _ ∧ _))

/-- The path leads to something below every directory from which it is taken. -/
structure Descends (p : Path) : Prop where
  relative : p.isAbsolute = false
  climb : p.climb = 0
  descent : p.descent ≠ []

section Joining

variable {a b c base p : Path}

/-- What stands between two paths that are joined. -/
def seam (p : Path) : List Char := if p.chars.getLast?.all (· == '/') then [] else ['/']

theorem chars_join (h : b.isAbsolute = false) :
    (a.join b).chars = a.chars ++ seam a ++ b.chars := by
  rw [join, h, if_neg (by decide), seam]
  split
  · rw [chars_ofChars, List.append_nil]
  · rw [chars_ofChars, List.append_assoc, List.singleton_append]

theorem join_of_isAbsolute (h : b.isAbsolute = true) : a.join b = b := by rw [join, if_pos h]

theorem seam_join (h : b.isAbsolute = false) :
    seam (a.join b) = if b.chars = [] then [] else seam b := by
  rw [seam, chars_join h]
  by_cases hb : b.chars = []
  · rw [if_pos hb, hb, List.append_nil]
    by_cases ha : a.chars.getLast?.all (· == '/') = true
    · rw [seam, if_pos ha, List.append_nil, if_pos ha]
    · rw [seam, if_neg ha, List.getLast?_append_of_ne_nil _ (List.cons_ne_nil '/' [])]
      rfl
  · rw [if_neg hb, List.getLast?_append_of_ne_nil _ hb, seam]

theorem join_assoc (a b c : Path) : (a.join b).join c = a.join (b.join c) := by
  cases hc : c.isAbsolute with
  | true => rw [join_of_isAbsolute hc, join_of_isAbsolute hc, join_of_isAbsolute hc]
  | false =>
    cases hb : b.isAbsolute with
    | true => rw [join_of_isAbsolute hb, join_of_isAbsolute (isAbsolute_join hb)]
    | false =>
      have hbc : (b.join c).isAbsolute = false := (isAbsolute_join_of_relative hc).trans hb
      refine ext_chars ?_
      rw [chars_join hc, chars_join hbc, chars_join hb, chars_join hc, seam_join hb]
      split
      · next hempty => simp [hempty, seam]
      · simp

theorem climb_descent {down : List Piece} {ups : Nat} (hdown : ∀ piece ∈ down, piece ≠ up)
    (h : p.normalize.names = List.replicate ups up ++ down) : p.climb = ups ∧ p.descent = down := by
  have hups : ∀ piece ∈ List.replicate ups up, (piece == up) = true := fun piece hm =>
    beq_iff_eq.mpr (List.eq_of_mem_replicate hm)
  have hstop : down.takeWhile (· == up) = [] ∧ down.dropWhile (· == up) = down := by
    cases down with
    | nil => exact ⟨rfl, rfl⟩
    | cons first rest =>
      have hfirst : first ≠ up := hdown first List.mem_cons_self
      simp [hfirst]
  rw [climb, descent, h, List.takeWhile_append_of_pos hups, List.dropWhile_append_of_pos hups,
    hstop.1, hstop.2, List.append_nil, List.length_replicate]
  exact ⟨rfl, rfl⟩

/-- What a relative path does wherever it is taken from: it climbs, and then it descends. -/
theorem tidy_names_relative (h : p.isAbsolute = false) :
    (∀ piece ∈ p.descent, piece ≠ up) ∧
      ∀ (absolute : Bool) (kept : List Piece), (∀ piece ∈ kept, piece ≠ up) →
        tidy absolute kept p.names =
          p.descent.reverse ++ kept.drop p.climb ++ above absolute (p.climb - kept.length) := by
  obtain ⟨down, ups, hdown, htidy⟩ := tidy_relative p.names
  have hdown' : ∀ piece ∈ down.reverse, piece ≠ up := fun piece hm =>
    hdown piece (List.mem_reverse.mp hm)
  have hnames : p.normalize.names = List.replicate ups up ++ down.reverse := by
    rw [names_normalize, h, htidy false [] nofun]
    simp [above]
  obtain ⟨hclimb, hdescent⟩ := climb_descent hdown' hnames
  rw [hclimb, hdescent, List.reverse_reverse]
  exact ⟨hdown', htidy⟩

theorem Clean.ne_up (h : base.Clean) : ∀ piece ∈ base.names, piece ≠ up :=
  fun piece hm => (h.isName piece hm).up

/-- A path that is joined to a directory leaves some of its names and adds others. -/
theorem names_normalize_join (hbase : base.Clean) (h : p.isAbsolute = false) :
    (base.join p).normalize.names =
      base.names.take (base.names.length - p.climb) ++ p.descent := by
  have hkept : ∀ piece ∈ base.names.reverse, piece ≠ up := fun piece hm =>
    hbase.ne_up piece (List.mem_reverse.mp hm)
  rw [names_normalize, isAbsolute_join hbase.isAbsolute, names_join h, tidy_append,
    tidy_names hbase.isName, List.append_nil, (tidy_names_relative h).2 true _ hkept,
    List.drop_reverse]
  simp [above]

theorem join_within_iff (hbase : base.Clean) (p : Path) :
    (base.join p).Within base ↔ p.LeadsInto base := by
  rw [LeadsInto]
  cases h : p.isAbsolute with
  | true => rw [join_of_isAbsolute h, if_pos rfl]
  | false =>
    let kept := base.names.take (base.names.length - p.climb)
    let left := base.names.drop (base.names.length - p.climb)
    have hbase' : base.names = kept ++ left := (List.take_append_drop _ _).symm
    have hjoin : (base.join p).normalize.names = kept ++ p.descent := names_normalize_join hbase h
    rw [Within, isAbsolute_join_of_relative h, hbase.names_normalize, hjoin, if_neg (by decide)]
    change _ ↔ left <+: p.descent ∧ left ≠ p.descent
    rw [hbase', List.prefix_append_right_inj, Ne, List.append_cancel_left_eq]
    exact and_iff_right rfl

theorem Descends.leadsInto (h : p.Descends) (base : Path) : p.LeadsInto base := by
  rw [LeadsInto, h.relative, if_neg (by decide)]
  simp only [h.climb, Nat.sub_zero, List.drop_length]
  exact ⟨List.nil_prefix, fun hnil => h.descent hnil.symm⟩

/-- Behind a path that does not climb, one that descends still descends. -/
theorem Descends.join (h : b.Descends) (ha : a.isAbsolute = false) (hclimb : a.climb = 0) :
    (a.join b).Descends := by
  obtain ⟨hkept, htidy⟩ := tidy_names_relative ha
  obtain ⟨hmore, htidy'⟩ := tidy_names_relative h.relative
  have hkept' : ∀ piece ∈ a.descent.reverse, piece ≠ up := fun piece hm =>
    hkept piece (List.mem_reverse.mp hm)
  have hrelative : (a.join b).isAbsolute = false :=
    (isAbsolute_join_of_relative h.relative).trans ha
  have hfirst : tidy false [] a.names = a.descent.reverse := by
    rw [htidy false [] nofun, hclimb]
    simp [above]
  have hnames : (a.join b).normalize.names = List.replicate 0 up ++ (a.descent ++ b.descent) := by
    rw [names_normalize, hrelative, names_join h.relative, tidy_append, hfirst,
      htidy' false _ hkept', h.climb]
    simp [above]
  have hboth : ∀ piece ∈ a.descent ++ b.descent, piece ≠ up := fun piece hm =>
    (List.mem_append.mp hm).elim (hkept piece) (hmore piece)
  obtain ⟨hzero, hdescent⟩ := climb_descent hboth hnames
  refine ⟨hrelative, hzero, fun hnil => ?_⟩
  rw [hdescent] at hnil
  exact h.descent (List.append_eq_nil_iff.mp hnil).2

/-- A plain name leads to something below every directory. -/
theorem descends_of_isName {name : String} (h : IsName name.toList) :
    (Path.mk name).Descends := by
  have hsplit : name.toList.splitOn '/' = [name.toList] := by
    have hslash : ∀ piece ∈ [name.toList], '/' ∉ piece := by simpa using h.slash
    simpa using List.splitOn_intercalate '/' hslash (List.cons_ne_nil _ _)
  have hpieces : (Path.mk name).names = [name.toList] := by
    rw [names_eq]
    change (name.toList.splitOn '/').filter _ = _
    rw [hsplit, List.filter_cons_of_pos (by simp [h.idle]), List.filter_nil]
  have hnames : (Path.mk name).normalize.names = List.replicate 0 up ++ [name.toList] := by
    rw [names_normalize, hpieces, tidy_names (by simpa using h)]
    rfl
  obtain ⟨hclimb, hdescent⟩ := climb_descent (by simpa using h.up) hnames
  exact ⟨isAbsolute_of_name h, hclimb, by simp [hdescent]⟩

end Joining

end Path

namespace Package

theorem isName_artifactFor {name : String} (h : '/' ∉ name.toList) :
    Path.IsName (artifactFor name).toList := by
  have hlist : (artifactFor name).toList =
      (name.toList.map fun c => if c = '-' then '_' else c) ++ ['.', 'w', 'a', 's', 'm'] := by
    rw [artifactFor, String.toList_append, String.toList_ofList]
    rfl
  have hlength : 5 ≤ (artifactFor name).toList.length := by
    rw [hlist, List.length_append]
    exact Nat.le_add_left _ _
  refine ⟨?_, fun hup => ?_, fun hm => ?_⟩
  · simp only [Path.isIdle, Bool.or_eq_false_iff, beq_eq_false_iff_ne]
    constructor
    · intro hnil
      simp [hnil] at hlength
    · intro hdot
      simp [hdot] at hlength
  · simp [hup, Path.up] at hlength
  · rw [hlist, List.mem_append] at hm
    rcases hm with hm | hm
    · obtain ⟨c, hc, hslash⟩ := List.mem_map.mp hm
      split at hslash
      · cases hslash
      · exact h (hslash ▸ hc)
    · simp at hm

end Package

namespace Config

variable {d : Disk} {project : Path} {o : Overrides} {env : Environment} {cfg : Config}

theorem source_eq (cfg : Config) :
    cfg.source = cfg.targetRoot.join
      ((Path.mk cfg.target).join ((Path.mk "release").join ⟨cfg.artifact⟩)) := by
  rw [source, Path.join_assoc, Path.join_assoc]

/-- The artifact is delivered inside the results directory exactly when its name leads there, and
it is built inside the target directory exactly when the target and the name lead there. So it is
where names do not climb, and where the name is that of a package without a slash. -/
theorem artifact_within_iff [Toml.Dialect] (hproject : project.isAbsolute = true)
    (h : resolve d project o env = .ok cfg) :
    (cfg.destination.Within cfg.resDir ↔ (Path.mk cfg.artifact).LeadsInto cfg.resDir) ∧
      (cfg.source.Within cfg.targetRoot ↔
        ((Path.mk cfg.target).join ((Path.mk "release").join ⟨cfg.artifact⟩)).LeadsInto
          cfg.targetRoot) ∧
      ((Path.mk cfg.artifact).Descends → cfg.destination.Within cfg.resDir ∧
        ((Path.mk cfg.target).isAbsolute = false → (Path.mk cfg.target).climb = 0 →
          cfg.source.Within cfg.targetRoot)) ∧
      ∀ name, '/' ∉ name.toList → cfg.artifact = Package.artifactFor name →
        (Path.mk cfg.artifact).Descends := by
  obtain ⟨htargetDir, hcoverageDir, hresDir⟩ := clean_of_resolve hproject h
  have hroot := clean_targetRoot htargetDir hcoverageDir
  have hdestination := Path.join_within_iff hresDir ⟨cfg.artifact⟩
  have hsource := Path.join_within_iff hroot
    ((Path.mk cfg.target).join ((Path.mk "release").join ⟨cfg.artifact⟩))
  rw [← source_eq] at hsource
  refine ⟨hdestination, hsource, fun hartifact => ⟨?_, fun hrelative hclimb => ?_⟩, ?_⟩
  · exact hdestination.mpr (hartifact.leadsInto cfg.resDir)
  · have hrelease := hartifact.join (a := ⟨"release"⟩) (by decide) (by decide)
    exact hsource.mpr ((hrelease.join hrelative hclimb).leadsInto cfg.targetRoot)
  · intro name hslash hname
    rw [hname]
    exact Path.descends_of_isName (Package.isName_artifactFor hslash)

def strayOverrides : Overrides := ⟨.standard, none, none, some "/x", some "..", none, none, none⟩

theorem artifact_within_iff_sample :
    ∃ cfg, resolve default ⟨"/p"⟩ strayOverrides ⟨[]⟩ = .ok cfg ∧ cfg.resDir = ⟨"/p/res"⟩ ∧
      cfg.destination = ⟨"/x"⟩ ∧ ¬ cfg.destination.Within cfg.resDir ∧
      ¬ cfg.source.Within cfg.targetRoot := by
  let result := resolve default ⟨"/p"⟩ strayOverrides ⟨[]⟩
  let cfg : Config := ⟨.standard, ⟨"/p"⟩, ⟨"/p/target"⟩, "..", "/x", ⟨"/p/res"⟩, "cargo",
    ⟨"/wasmcov"⟩, none, [], .standard⟩
  have hok : result.toOption = some cfg := by decide +kernel
  have h : result = .ok cfg := Except.eq_ok_of_toOption hok
  obtain ⟨hdestination, hsource, -, -⟩ := artifact_within_iff (by decide) h
  refine ⟨cfg, h, rfl, by decide +kernel, ?_, ?_⟩
  · rw [hdestination]
    decide +kernel
  · rw [hsource]
    decide +kernel

end Config

end WasmBuild
