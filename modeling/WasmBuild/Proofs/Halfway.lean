import WasmBuild.Proofs.Cleanup
import WasmBuild.Proofs.Redelivery
import WasmBuild.Proofs.Spelling

/-! Paths that go on where other paths end. Whatever is found by the longer one is found from the
directory to which the shorter one leads. -/

namespace WasmBuild

namespace FileSystem

variable {fs : FileSystem} {purpose : Purpose} {links more : Nat} {loc place : Location}
  {steps front back : List Step} {spot : Spot}

theorem Walk.weaken (h : Walk fs purpose links loc steps spot) (hmore : links ≤ more) :
    Walk fs purpose more loc steps spot := by
  induction h generalizing more with
  | stop => exact .stop
  | idle hstep hallows _ ih => exact .idle hstep hallows (ih hmore)
  | up hallows _ ih => exact .up hallows (ih hmore)
  | enter hallows hslash hnode hlink _ ih => exact .enter hallows hslash hnode hlink (ih hmore)
  | vacant hallows hnode => exact .vacant hallows hnode
  | obstacle hallows hclaim hnode => exact .obstacle hallows hclaim hnode
  | @follow links _ _ _ _ _ hallows hslash hnode hclaim _ ih =>
    obtain ⟨rest, rfl⟩ := Nat.exists_eq_add_of_le hmore
    rw [Nat.add_right_comm]
    exact .follow hallows hslash hnode hclaim (ih (Nat.le_add_right links rest))

theorem Walk.node_start (h : Walk fs purpose links loc steps spot) (hsteps : steps ≠ []) :
    fs.node? loc = some .dir := by
  cases h with
  | stop => exact absurd rfl hsteps
  | idle _ hallows => exact hallows.2
  | up hallows => exact hallows.2
  | enter hallows => exact hallows.2
  | vacant hallows => exact hallows.2
  | obstacle hallows => exact hallows.2
  | follow hallows => exact hallows.2

/-- A walk that stands in a directory when it has taken the first of its steps. -/
def Passes (fs : FileSystem) (links : Nat) (loc : Location) (front back : List Step)
    (spot : Spot) : Prop :=
  ∃ mid fewer, Walk fs .find links loc front (.found mid) ∧ fs.node? mid = some .dir ∧
    fewer ≤ links ∧ Walk fs .find fewer mid back spot

theorem Walk.passes_start {whole : List Step} (h : Walk fs .find links loc whole spot)
    (hwhole : whole = [] ++ back) (hback : back ≠ []) : fs.Passes links loc [] back spot := by
  obtain rfl : whole = back := hwhole
  exact ⟨loc, links, .stop, h.node_start hback, Nat.le_refl links, h⟩

theorem Walk.passes {whole : List Step} (h : Walk fs .find links loc whole spot)
    (hwhole : whole = front ++ back) (hback : back ≠ []) :
    fs.Passes links loc front back spot := by
  induction h generalizing front with
  | stop => exact absurd (List.append_eq_nil_iff.mp hwhole.symm).2 hback
  | idle hstep hallows h ih =>
    rcases front with _ | ⟨step, front⟩
    · exact (Walk.idle hstep hallows h).passes_start hwhole hback
    · obtain ⟨rfl, hrest⟩ := List.cons.inj hwhole
      obtain ⟨mid, fewer, hfront, hmid⟩ := ih hrest
      exact ⟨mid, fewer, .idle hstep hallows hfront, hmid⟩
  | up hallows h ih =>
    rcases front with _ | ⟨step, front⟩
    · exact (Walk.up hallows h).passes_start hwhole hback
    · obtain ⟨rfl, hrest⟩ := List.cons.inj hwhole
      obtain ⟨mid, fewer, hfront, hmid⟩ := ih hrest
      exact ⟨mid, fewer, .up hallows hfront, hmid⟩
  | enter hallows hslash hnode hlink h ih =>
    rcases front with _ | ⟨step, front⟩
    · exact (Walk.enter hallows hslash hnode hlink h).passes_start hwhole hback
    · obtain ⟨rfl, hrest⟩ := List.cons.inj hwhole
      obtain ⟨mid, fewer, hfront, hmid⟩ := ih hrest
      exact ⟨mid, fewer, .enter hallows (fun h => nomatch h.1) hnode hlink hfront, hmid⟩
  | vacant hallows hnode =>
    rcases front with _ | ⟨step, front⟩
    · exact (Walk.vacant hallows hnode).passes_start hwhole hback
    · exact absurd (List.append_eq_nil_iff.mp (List.cons.inj hwhole).2.symm).2 hback
  | obstacle _ hclaim => cases hclaim
  | @follow links loc name target rest _ hallows hslash hnode hclaim h ih =>
    rcases front with _ | ⟨step, front⟩
    · exact (Walk.follow hallows hslash hnode hclaim h).passes_start hwhole hback
    · obtain ⟨rfl, hrest⟩ := List.cons.inj hwhole
      -- the steps of the target come before those that are left of the path
      have hlonger : (Route.ofBytes target).steps ++ rest =
          (Route.ofBytes target).steps ++ front ++ back := by
        rw [List.append_assoc]
        exact congrArg _ hrest
      obtain ⟨mid, fewer, hfront, hdir, hfewer, hback⟩ := ih hlonger
      exact ⟨mid, fewer, .follow hallows (fun h => nomatch h.1) hnode (fun h => nomatch h.1) hfront,
        hdir, Nat.le_succ_of_le hfewer, hback⟩

theorem Walk.append {mid : Location} {first second : Nat} {start : Spot}
    (h : Walk fs .find first loc front start) (hstart : start = .found mid)
    (h' : Walk fs .find second mid back spot) :
    Walk fs .find (first + second) loc (front ++ back) spot := by
  induction h with
  | stop =>
    cases hstart
    exact h'.weaken (Nat.le_add_left second _)
  | idle hstep hallows _ ih => exact .idle hstep hallows (ih hstart)
  | up hallows _ ih => exact .up hallows (ih hstart)
  | enter hallows _ hnode hlink _ ih =>
    exact .enter hallows (fun h => nomatch h.1) hnode hlink (ih hstart)
  | vacant => cases hstart
  | obstacle _ hclaim => cases hclaim
  | @follow links _ _ _ _ _ hallows _ hnode _ _ ih =>
    have hinner := ih hstart
    rw [List.append_assoc] at hinner
    rw [Nat.add_right_comm]
    exact .follow hallows (fun h => nomatch h.1) hnode (fun h => nomatch h.1) hinner

theorem Walk.drop_slash (h : Walk fs .find links loc (steps ++ [.slash]) (.found place)) :
    Walk fs .find links loc steps (.found place) := by
  obtain ⟨mid, fewer, hfront, -, -, hback⟩ := h.passes rfl (List.cons_ne_nil _ _)
  cases hback with
  | idle _ _ hend =>
    cases hend
    exact hfront

end FileSystem

namespace Path

variable {p dir : Path} {ps qs : List Piece} {absolute : Bool}

abbrev step? (piece : Piece) : Option Step :=
  Route.step? '.' (fun cs => Name.ofBytes? (String.ofList cs).toUTF8) piece

/-- The steps of a path without the slash at its end. -/
def steps (p : Path) : List Step := (Route.ofPath p).steps.filter (· ≠ .slash)

theorem steps_eq_splitOn (p : Path) : p.steps = (p.chars.splitOn '/').filterMap step? :=
  Route.filter_steps_read '/' '.' _ p.chars

theorem steps_eq (p : Path) : p.steps = p.pieces.filterMap step? := by
  rw [steps_eq_splitOn, pieces]
  cases habs : p.isAbsolute with
  | false => rfl
  | true =>
    obtain ⟨rest, hrest⟩ := isAbsolute_iff.mp habs
    rw [hrest, List.splitOn_cons_eq_if_modifyHead, if_pos BEq.rfl,
      List.filterMap_cons_none (by rfl)]
    rfl

theorem steps_join {base rel : Path} (h : rel.isAbsolute = false) :
    (base.join rel).steps = base.steps ++ rel.steps := by
  simp only [steps_eq_splitOn]
  exact filterMap_splitOn_join rfl h

theorem steps_ofPieces (h : Written absolute ps) :
    (ofPieces absolute ps).steps = ps.filterMap step? := by
  rw [steps_eq]
  by_cases hne : ps = []
  · subst hne
    cases absolute <;> decide
  · rw [pieces_ofPieces h hne]

theorem step?_ne_none {piece : Piece} (hne : piece ≠ []) : step? piece ≠ none := by
  rw [step?, Route.step?, if_neg hne]
  split
  · exact Option.some_ne_none _
  split
  · exact Option.some_ne_none _
  · exact Option.some_ne_none _

theorem ne_nil_of_isComponent {piece : Piece} {outer : List Piece}
    (h : isComponent absolute piece outer = true) : piece ≠ [] := by
  rintro rfl
  simp [isComponent, isIdle] at h

theorem shed_cases (absolute : Bool) (ps : List Piece) :
    shed absolute ps = [] ∨ ∃ piece outer, shed absolute ps = piece :: outer ∧ piece ≠ [] := by
  induction ps with
  | nil => exact .inl rfl
  | cons piece outer ih =>
    rw [shed]
    split
    · next h => exact .inr ⟨piece, outer, rfl, ne_nil_of_isComponent h⟩
    · exact ih

/-- The nearest parent is left when a component is taken away, with what is idle around it. -/
theorem peel_eq_cons_split {nearest : List Piece} {others : List (List Piece)}
    (h : peel absolute ps = nearest :: others) :
    ∃ front piece outer, ps = front ++ piece :: outer ∧ piece ≠ [] ∧
      nearest = shed absolute outer := by
  induction ps with
  | nil => cases h
  | cons piece outer ih =>
    rw [peel] at h
    split at h
    · next hcomponent =>
      cases h
      exact ⟨[], piece, outer, rfl, ne_nil_of_isComponent hcomponent, rfl⟩
    · obtain ⟨front, other, rest, rfl, hother⟩ := ih h
      exact ⟨piece :: front, other, rest, rfl, hother⟩

theorem intercalate_initial (h : ps <+: qs) :
    List.intercalate ['/'] ps <+: List.intercalate ['/'] qs := by
  obtain ⟨more, rfl⟩ := h
  by_cases hps : ps = []
  · subst hps
    exact List.nil_prefix
  by_cases hmore : more = []
  · rw [hmore, List.append_nil]
  · rw [intercalate_append hps hmore, List.append_assoc]
    exact List.prefix_append _ _

/-- The steps of a path go on where those of the other end. -/
structure Continues (p dir : Path) (back : List Step) : Prop where
  absolute : dir.isAbsolute = p.isAbsolute
  routed : ¬(dir.isAbsolute = false ∧ dir.steps = [])
  steps : p.steps = dir.steps ++ back
  chars : dir.chars <+: p.chars

theorem continues_of_parent (h : p.parent? = some dir) :
    dir.text = "" ∨ ∃ back, back ≠ [] ∧ p.Continues dir back := by
  rw [parent?, parents, List.head?_map] at h
  cases hpeel : peel p.isAbsolute p.pieces.reverse with
  | nil => simp [hpeel] at h
  | cons nearest others =>
    obtain ⟨front, piece, outer, hpieces, hpiece, rfl⟩ := peel_eq_cons_split hpeel
    obtain ⟨dropped, hdropped⟩ := shed_suffix p.isAbsolute outer
    have hcases := shed_cases p.isAbsolute outer
    generalize shed p.isAbsolute outer = kept at hpeel hdropped hcases
    obtain rfl : ofPieces p.isAbsolute kept.reverse = dir := by simpa [hpeel] using h
    have hall : p.pieces = kept.reverse ++ (dropped.reverse ++ piece :: front.reverse) := by
      rw [← List.reverse_reverse p.pieces, hpieces, ← hdropped]
      simp
    have hinitial : kept.reverse <+: p.pieces := ⟨_, hall.symm⟩
    have hwritten := written_of_initial hinitial
    have hsteps : (ofPieces p.isAbsolute kept.reverse).steps = kept.reverse.filterMap step? :=
      steps_ofPieces hwritten
    by_cases hempty : p.isAbsolute = false ∧ kept = []
    · rw [hempty.1, hempty.2]
      exact .inl rfl
    refine .inr ⟨(dropped.reverse ++ piece :: front.reverse).filterMap step?, ?_,
      isAbsolute_ofPieces hwritten, ?_, ?_, ?_⟩
    · intro hnil
      have hmem : piece ∈ dropped.reverse ++ piece :: front.reverse := by simp
      exact step?_ne_none hpiece (List.filterMap_eq_nil_iff.mp hnil piece hmem)
    · rintro ⟨hrel, hnil⟩
      rw [isAbsolute_ofPieces hwritten] at hrel
      rw [hsteps] at hnil
      rcases hcases with hkept | ⟨last, rest, hkept, hlast⟩
      · exact hempty ⟨hrel, hkept⟩
      · have hmem : last ∈ kept.reverse := by simp [hkept]
        exact step?_ne_none hlast (List.filterMap_eq_nil_iff.mp hnil last hmem)
    · rw [steps_eq, hall, List.filterMap_append, hsteps]
    · rw [chars_ofPieces]
      conv => rhs; rw [← ofPieces_pieces p, chars_ofPieces]
      rw [List.prefix_append_right_inj]
      exact intercalate_initial hinitial

theorem continues_of_join {name : String} (habs : dir.isAbsolute = true)
    (hname : IsName name.toList) :
    (dir.join ⟨name⟩).Continues dir [nameStep name.toList] := by
  have hrel : (Path.mk name).isAbsolute = false := isAbsolute_of_name hname
  have hsteps : (Path.mk name).steps = [nameStep name.toList] := by
    rw [steps_eq_splitOn]
    change (name.toList.splitOn '/').filterMap step? = _
    rw [List.splitOn_eq_singleton hname.slash, List.filterMap_cons_some (step?_name hname),
      List.filterMap_nil]
  refine ⟨?_, fun h => absurd (habs.symm.trans h.1) (by decide), ?_, ?_⟩
  · rw [habs, isAbsolute_join habs]
  · rw [steps_join hrel, hsteps]
  · rw [join, hrel, if_neg (by decide)]
    split
    · rw [chars_ofChars]
      exact List.prefix_append _ _
    · rw [chars_ofChars]
      exact List.prefix_append _ _

end Path

namespace Disk

open FileSystem

variable {d : Disk} {p dir : Path} {loc : Location} {back : List Step}

theorem walk_of_follow (h : d.follow .find p = .ok (.found loc)) :
    Walk d.tree .find maxLinks ((Route.ofPath p).start d.cwd) p.steps (.found loc) := by
  rw [follow_eq_ok_iff, FileSystem.reach_eq_ok_iff, stepsFor_of_ne_claim (by decide)] at h
  obtain ⟨-, -, hwalk⟩ := h
  rcases Route.steps_ofPath p with hsteps | hsteps
  · rwa [hsteps] at hwalk
  · rw [hsteps] at hwalk
    exact hwalk.drop_slash

theorem follow_of_walk (hnul : '\x00' ∉ p.chars)
    (hrouted : ¬(p.isAbsolute = false ∧ p.steps = []))
    (hwalk : Walk d.tree .find maxLinks ((Route.ofPath p).start d.cwd) p.steps (.found loc))
    (hdir : d.tree.node? loc = some .dir) : d.follow .find p = .ok (.found loc) := by
  rw [follow_eq_ok_iff, FileSystem.reach_eq_ok_iff, stepsFor_of_ne_claim (by decide)]
  refine ⟨hnul, fun h => hrouted ⟨Route.absolute_ofPath p ▸ h.1, ?_⟩, ?_⟩
  · rw [Path.steps, h.2]
    rfl
  · rcases Route.steps_ofPath p with hsteps | hsteps
    · rwa [hsteps]
    · rw [hsteps]
      exact hwalk.append_slash rfl hdir

theorem follow_outer (hcontinues : p.Continues dir back) (hback : back ≠ [])
    (h : d.follow .find p = .ok (.found loc)) :
    ∃ mid fewer, d.follow .find dir = .ok (.found mid) ∧ d.tree.node? mid = some .dir ∧
      fewer ≤ maxLinks ∧ Walk d.tree .find fewer mid back (.found loc) := by
  have hnul := (follow_eq_ok_iff.mp h).1
  have hwalk := walk_of_follow h
  have hstart : (Route.ofPath p).start d.cwd = (Route.ofPath dir).start d.cwd := by
    rw [Route.start, Route.start, Route.absolute_ofPath, Route.absolute_ofPath,
      hcontinues.absolute]
  rw [hstart] at hwalk
  obtain ⟨mid, fewer, hfront, hdir, hfewer, hrest⟩ := hwalk.passes hcontinues.steps hback
  exact ⟨mid, fewer, follow_of_walk (fun hm => hnul (hcontinues.chars.subset hm))
    hcontinues.routed hfront hdir, hdir, hfewer, hrest⟩

theorem isDir_outer (hcontinues : p.Continues dir back) (hback : back ≠ [])
    (h : d.locate p = .ok loc) : d.isDir dir = true := by
  obtain ⟨hsize, hfollow⟩ := locate_eq_ok_iff.mp h
  obtain ⟨mid, -, hmid, hdir, -⟩ := follow_outer hcontinues hback hfollow
  have hshort := Nat.le_trans (Path.utf8ByteSize_le hcontinues.chars) hsize
  exact isDir_iff.mpr ⟨mid, locate_eq_ok_iff.mpr ⟨hshort, hmid⟩, hdir⟩

end Disk

end WasmBuild
