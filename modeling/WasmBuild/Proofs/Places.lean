import WasmBuild.Proofs.Growth

/-! Where paths lead on a disk. A path that leads somewhere still leads there when the disk
has grown, and the purpose for which it is followed matters little. -/

namespace WasmBuild

namespace Route

def start (r : Route) (cwd : Location) : Location := if r.absolute then [] else cwd

theorem absolute_ofPath (p : Path) : (ofPath p).absolute = p.isAbsolute := by
  rw [Bool.eq_iff_iff, Path.isAbsolute, beq_iff_eq]
  exact decide_eq_true_iff

variable {α : Type} [DecidableEq α]

theorem step?_ne_slash (dot : α) (name? : List α → Option Name) (piece : List α) :
    step? dot name? piece ≠ some .slash := by
  unfold step?
  split
  · simp
  split
  · simp
  split
  · simp
  cases name? piece <;> simp

theorem filter_steps_read (slash dot : α) (name? : List α → Option Name) (text : List α) :
    (read slash dot name? text).steps.filter (· ≠ .slash) =
      (text.splitOn slash).filterMap (step? dot name?) := by
  have hplain : ((text.splitOn slash).filterMap (step? dot name?)).filter (· ≠ .slash) =
      (text.splitOn slash).filterMap (step? dot name?) := by
    refine List.filter_eq_self.mpr fun step hstep => ?_
    obtain ⟨piece, -, hpiece⟩ := List.mem_filterMap.mp hstep
    have hslash : step ≠ .slash := fun e => step?_ne_slash dot name? piece (e ▸ hpiece)
    simpa using hslash
  simp only [read]
  split
  · rw [List.filter_append, hplain]
    simp
  · exact hplain

/-- The only slash that counts as a step is one at the end. -/
theorem steps_read (slash dot : α) (name? : List α → Option Name) (text : List α) :
    let r := read slash dot name? text
    r.steps = r.steps.filter (· ≠ .slash) ∨ r.steps = r.steps.filter (· ≠ .slash) ++ [.slash] := by
  intro r
  rw [filter_steps_read]
  dsimp only [r, read]
  split
  · exact .inr rfl
  · exact .inl rfl

theorem steps_ofPath (p : Path) :
    (ofPath p).steps = (ofPath p).steps.filter (· ≠ .slash) ∨
      (ofPath p).steps = (ofPath p).steps.filter (· ≠ .slash) ++ [.slash] :=
  steps_read '/' '.' _ p.chars

end Route

namespace FileSystem

variable {fs : FileSystem} {purpose : Purpose}

theorem reach_eq (fs : FileSystem) (purpose : Purpose) (cwd : Location) (route : Route) :
    fs.reach purpose cwd route =
      if route.absolute = false ∧ route.steps = [] then .error .noEntry
      else fs.walk purpose maxLinks (route.start cwd) (stepsFor purpose route.steps) := by
  rw [reach, Route.start]
  cases route.absolute <;> simp

theorem reach_eq_ok_iff {cwd : Location} {route : Route} {spot : Spot} :
    fs.reach purpose cwd route = .ok spot ↔
      ¬(route.absolute = false ∧ route.steps = []) ∧
        Walk fs purpose maxLinks (route.start cwd) (stepsFor purpose route.steps) spot := by
  rw [reach_eq]
  split
  · next h => simp [h]
  · next h => rw [walk_eq_ok_iff, and_iff_right h]

theorem stepsFor_of_ne_claim (h : purpose ≠ .claim) (steps : List Step) :
    stepsFor purpose steps = steps := if_neg h

/-- A directory that is found is also found with a slash at the end. -/
theorem Walk.append_slash {links : Nat} {loc place : Location} {steps : List Step} {spot : Spot}
    (h : Walk fs .find links loc steps spot) (hspot : spot = .found place)
    (hdir : fs.node? place = some .dir) : Walk fs .find links loc (steps ++ [.slash]) spot := by
  induction h with
  | stop =>
    cases hspot
    exact .idle (.inr rfl) ⟨fun h => (nomatch h.1), hdir⟩ .stop
  | idle hstep hallows _ ih => exact .idle hstep hallows (ih hspot)
  | up hallows _ ih => exact .up hallows (ih hspot)
  | enter hallows _ hnode hlink _ ih =>
    exact .enter hallows (fun h => nomatch h.1) hnode hlink (ih hspot)
  | vacant => cases hspot
  | obstacle _ hclaim => cases hclaim
  | follow hallows _ hnode _ _ ih =>
    have := ih hspot
    rw [List.append_assoc] at this
    exact .follow hallows (fun h => nomatch h.1) hnode (fun h => nomatch h.1) this

end FileSystem

namespace Disk

open FileSystem

structure Grows (before after : Disk) : Prop where
  cwd : after.cwd = before.cwd
  tree : before.tree.Grows after.tree

theorem Grows.refl (d : Disk) : d.Grows d := ⟨rfl, .refl _⟩

theorem Grows.trans {first second third : Disk} (h : first.Grows second)
    (h' : second.Grows third) : first.Grows third :=
  ⟨h'.cwd.trans h.cwd, h.tree.trans h'.tree⟩

variable {d after : Disk} {purpose : Purpose} {p : Path} {spot : Spot} {loc : Location}

theorem walk_eq_ok_iff {route : Route} :
    d.walk purpose route = .ok spot ↔ d.tree.reach purpose d.cwd route = .ok spot := by
  unfold walk
  cases d.tree.reach purpose d.cwd route <;> simp

theorem follow_eq_ok_iff :
    d.follow purpose p = .ok spot ↔
      '\x00' ∉ p.chars ∧ d.tree.reach purpose d.cwd (Route.ofPath p) = .ok spot := by
  unfold follow
  split
  · next h => simp [List.contains_iff_mem.mp h]
  · next h => rw [walk_eq_ok_iff, and_iff_right fun hm => h (List.contains_iff_mem.mpr hm)]

theorem reach_eq_ok_iff :
    d.reach purpose p = .ok spot ↔
      p.text.utf8ByteSize ≤ maxPath ∧ d.follow purpose p = .ok spot := by
  unfold reach
  split
  · next h => simp [Nat.not_le.mpr h.1]
  · next h =>
    refine ⟨fun hf => ⟨?_, hf⟩, And.right⟩
    exact Nat.not_lt.mp fun hlong => h ⟨hlong, (follow_eq_ok_iff.mp hf).1⟩

theorem settled_eq_ok_iff {result : Except IoError Spot} :
    settled result = .ok loc ↔ result = .ok (.found loc) := by
  rcases result with e | (place | ⟨dir, name⟩) <;> simp [settled]

theorem locate_eq_ok_iff :
    d.locate p = .ok loc ↔
      p.text.utf8ByteSize ≤ maxPath ∧ d.follow .find p = .ok (.found loc) :=
  settled_eq_ok_iff.trans reach_eq_ok_iff

theorem trace_eq_ok_iff : d.trace p = .ok loc ↔ d.follow .trace p = .ok (.found loc) :=
  settled_eq_ok_iff

theorem follow_grow (hg : d.Grows after) (h : d.follow purpose p = .ok (.found loc)) :
    after.follow purpose p = .ok (.found loc) := by
  rw [follow_eq_ok_iff, FileSystem.reach_eq_ok_iff] at h ⊢
  rw [hg.cwd]
  exact ⟨h.1, h.2.1, h.2.2.grow hg.tree rfl⟩

theorem locate_grow (hg : d.Grows after) (h : d.locate p = .ok loc) : after.locate p = .ok loc := by
  rw [locate_eq_ok_iff] at h ⊢
  exact ⟨h.1, follow_grow hg h.2⟩

theorem follow_find (hpurpose : purpose ≠ .claim) (h : d.follow purpose p = .ok (.found loc)) :
    d.follow .find p = .ok (.found loc) := by
  rw [follow_eq_ok_iff, FileSystem.reach_eq_ok_iff] at h ⊢
  rw [stepsFor_of_ne_claim hpurpose] at h
  exact ⟨h.1, h.2.1, h.2.2.find rfl fun hclaim => absurd hclaim hpurpose⟩

/-- The place of a path that leads somewhere is told, unless a name on the way has too long
a path. -/
theorem trace_of_follow (h : d.follow .find p = .ok (.found loc)) :
    d.trace p = .ok loc ∨ d.trace p = .error (.os .nameTooLong) := by
  rw [follow_eq_ok_iff, FileSystem.reach_eq_ok_iff] at h
  obtain ⟨hnul, hroute, hwalk⟩ := h
  rw [trace, follow, if_neg fun hm => hnul (List.contains_iff_mem.mp hm), walk, reach_eq,
    if_neg hroute]
  rcases hwalk.trace with h | h
  · exact .inl (by rw [show stepsFor .trace _ = stepsFor .find _ from rfl, h]; rfl)
  · exact .inr (by rw [show stepsFor .trace _ = stepsFor .find _ from rfl, h]; rfl)

theorem node_of_follow (hpurpose : purpose ≠ .claim)
    (h : d.follow purpose p = .ok (.found loc)) :
    ∃ node, d.tree.node? loc = some node ∧ node.IsSolid := by
  rw [follow_eq_ok_iff, FileSystem.reach_eq_ok_iff, stepsFor_of_ne_claim hpurpose] at h
  obtain ⟨-, hroute, hwalk⟩ := h
  by_cases hsteps : (Route.ofPath p).steps = []
  · have habs : (Route.ofPath p).absolute = true := by
      cases habs : (Route.ofPath p).absolute with
      | true => rfl
      | false => exact absurd ⟨habs, hsteps⟩ hroute
    refine hwalk.node_of_found rfl hpurpose ⟨.dir, ?_, Node.isSolid_dir⟩
    rw [Route.start, if_pos habs]
    exact node?_nil _
  · exact hwalk.node_of_steps hsteps hpurpose

end Disk

end WasmBuild
