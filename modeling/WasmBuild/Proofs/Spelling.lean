import Mathlib.Data.List.Infix
import WasmBuild.Proofs.Copying

/-! Paths that spell out a place name by name. As far as the directories on the way exist
such a path leads to its place, and where nothing stands in the way they can be made. -/

namespace WasmBuild

def Node.isFile : Node → Bool
  | .file _ => true
  | _ => false

namespace FileSystem

variable {fs : FileSystem} {purpose : Purpose} {links : Nat} {loc dir : Location}

theorem node?_outer {inner outer : Location} (hne : inner ≠ [])
    (h : (fs.node? (inner ++ outer)).isSome) : fs.node? outer = some .dir := by
  induction inner with
  | nil => exact absurd rfl hne
  | cons name inner ih =>
    have hdir : fs.node? (inner ++ outer) = some .dir := node?_parent h
    by_cases hinner : inner = []
    · rwa [hinner] at hdir
    · exact ih hinner (by rw [hdir]; rfl)

theorem map_enter_ne_slash (names : List Name) : names.map Step.enter ≠ [.slash] := by
  cases names <;> simp

theorem size_le_append (inner outer : Location) :
    Location.size outer ≤ Location.size (inner ++ outer) := by
  induction inner with
  | nil => exact Nat.le_refl _
  | cons name inner ih =>
    rw [List.cons_append, Location.size]
    omega

theorem allows_enter {name : Name} (hsize : Location.size (name :: loc) ≤ maxPath)
    (hdir : fs.node? loc = some .dir) : fs.Allows purpose loc (.enter name) :=
  ⟨fun h => Nat.not_lt.mpr hsize h.2, hdir⟩

/-- The names on the way to what exists can be entered one after the other. -/
theorem walk_names (names : List Name) {node : Node}
    (hsize : Location.size (names.reverse ++ loc) ≤ maxPath)
    (hnode : fs.node? (names.reverse ++ loc) = some node) (hsolid : node.IsSolid) :
    Walk fs purpose links loc (names.map .enter) (.found (names.reverse ++ loc)) := by
  induction names generalizing loc with
  | nil => exact .stop
  | cons name rest ih =>
    have hrest : fs.node? (rest.reverse ++ name :: loc) = some node := by simpa using hnode
    have hsize' : Location.size (rest.reverse ++ name :: loc) ≤ maxPath := by simpa using hsize
    have hstep : Location.size (name :: loc) ≤ maxPath :=
      Nat.le_trans (size_le_append rest.reverse (name :: loc)) hsize'
    have hdir : fs.node? loc = some .dir :=
      node?_outer (List.concat_ne_nil name rest.reverse) (by simp [hrest])
    have hslash : ¬(purpose = .write ∧ rest.map Step.enter = [.slash]) :=
      fun hs => map_enter_ne_slash rest hs.2
    have hfirst : ∃ first, fs.node? (name :: loc) = some first ∧ first.IsSolid := by
      by_cases hne : rest = []
      · subst hne
        exact ⟨node, hrest, hsolid⟩
      · have hinner : rest.reverse ≠ [] := mt List.reverse_eq_nil_iff.mp hne
        exact ⟨.dir, node?_outer hinner (by rw [hrest]; rfl), Node.isSolid_dir⟩
    obtain ⟨first, hfirst, hfirst'⟩ := hfirst
    rw [List.reverse_cons, List.append_assoc]
    exact .enter (allows_enter hstep hdir) hslash hfirst hfirst' (ih hsize' hrest)

theorem walk_names_vacant (names : List Name) {name : Name}
    (hsize : Location.size (name :: (names.reverse ++ loc)) ≤ maxPath)
    (hdir : fs.node? (names.reverse ++ loc) = some .dir)
    (hnone : fs.node? (name :: (names.reverse ++ loc)) = none) :
    Walk fs purpose links loc ((names ++ [name]).map .enter)
      (.vacant (names.reverse ++ loc) name) := by
  induction names generalizing loc with
  | nil => exact .vacant (allows_enter hsize hdir) hnone
  | cons first rest ih =>
    have hrest : fs.node? (rest.reverse ++ first :: loc) = some .dir := by simpa using hdir
    have hsize' : Location.size (name :: (rest.reverse ++ first :: loc)) ≤ maxPath := by
      simpa using hsize
    have hstep : Location.size (first :: loc) ≤ maxPath :=
      Nat.le_trans (size_le_append (name :: rest.reverse) (first :: loc)) hsize'
    have hloc : fs.node? loc = some .dir :=
      node?_outer (List.concat_ne_nil first rest.reverse) (by simp [hrest])
    have hslash : ¬(purpose = .write ∧ (rest ++ [name]).map Step.enter = [.slash]) :=
      fun hs => map_enter_ne_slash _ hs.2
    have hfirst : fs.node? (first :: loc) = some .dir := by
      by_cases hne : rest = []
      · subst hne
        exact hrest
      · exact node?_outer (mt List.reverse_eq_nil_iff.mp hne) (by rw [hrest]; rfl)
    rw [List.reverse_cons, List.append_assoc]
    exact .enter (allows_enter hstep hloc) hslash hfirst Node.isSolid_dir
      (ih hsize' hrest (by simpa using hnone))

theorem walk_names_missing (names : List Name) {name : Name}
    (hsize : Location.size (names.reverse ++ loc) ≤ maxPath)
    (hclear : ∀ outer, outer <:+ names.reverse ++ loc →
      fs.node? outer = none ∨ fs.node? outer = some .dir)
    (hloc : fs.node? loc = some .dir) (hnone : fs.node? (names.reverse ++ loc) = none) :
    fs.walk purpose links loc ((names ++ [name]).map .enter) = .error .noEntry := by
  induction names generalizing loc with
  | nil =>
    rw [List.reverse_nil, List.nil_append, hloc] at hnone
    cases hnone
  | cons first rest ih =>
    have hslash : ¬(purpose = .write ∧ (rest ++ [name]).map Step.enter = [.slash]) :=
      fun hs => map_enter_ne_slash _ hs.2
    rw [List.reverse_cons, List.append_assoc, List.singleton_append] at hclear hnone hsize
    have hstep : Location.size (first :: loc) ≤ maxPath :=
      Nat.le_trans (size_le_append rest.reverse (first :: loc)) hsize
    rw [List.cons_append, List.map_cons, walk_cons_of_allows (allows_enter hstep hloc)]
    simp only [proceed, hslash, if_false]
    rcases hclear (first :: loc) (List.suffix_append _ _) with hfirst | hfirst
    · simp [hfirst]
    · simpa [hfirst] using ih hsize hclear hfirst hnone

end FileSystem

namespace Path

def nameStep (piece : Piece) : Step :=
  (Name.ofBytes? (String.ofList piece).toUTF8).elim .tooLong .enter

theorem nameStep_cases (piece : Piece) :
    nameStep piece = .tooLong ∨ ∃ name, nameStep piece = .enter name := by
  rw [nameStep]
  cases Name.ofBytes? (String.ofList piece).toUTF8 with
  | none => exact .inl rfl
  | some name => exact .inr ⟨name, rfl⟩

theorem step?_name {piece : Piece} (h : IsName piece) :
    Route.step? '.' (fun cs => Name.ofBytes? (String.ofList cs).toUTF8) piece =
      some (nameStep piece) := by
  obtain ⟨hidle, hup, -⟩ := h
  simp only [isIdle, Bool.or_eq_false_iff, beq_eq_false_iff_ne] at hidle
  rw [Route.step?, if_neg hidle.1, if_neg hidle.2]
  exact if_neg hup

theorem filterMap_step?_names {ps : List Piece} (h : ∀ piece ∈ ps, IsName piece) :
    ps.filterMap (Route.step? '.' fun cs => Name.ofBytes? (String.ofList cs).toUTF8) =
      ps.map nameStep := by
  induction ps with
  | nil => rfl
  | cons piece rest ih =>
    rw [List.filterMap_cons_some (step?_name (h piece List.mem_cons_self)),
      ih fun _ hm => h _ (List.mem_cons_of_mem piece hm), List.map_cons]

theorem getLast?_ofPieces {ps : List Piece} (h : ∀ piece ∈ ps, IsName piece) (hne : ps ≠ []) :
    (ofPieces true ps).chars.getLast? ≠ some '/' := by
  obtain ⟨c, hc, hslash⟩ := getLast?_intercalate_ne_slash h hne
  rw [chars_ofPieces, List.getLast?_append, hc]
  simpa using hslash

theorem route_ofPieces {ps : List Piece} (h : ∀ piece ∈ ps, IsName piece) :
    Route.ofPath (ofPieces true ps) = ⟨true, ps.map nameStep⟩ := by
  by_cases hne : ps = []
  · subst hne
    decide
  have hchars : (ofPieces true ps).chars = '/' :: List.intercalate ['/'] ps := by
    rw [chars_ofPieces]
    rfl
  have hsplit : (ofPieces true ps).chars.splitOn '/' = [] :: ps := by
    rw [hchars, List.splitOn_cons_eq_if_modifyHead, if_pos BEq.rfl,
      List.splitOn_intercalate '/' (fun piece hm => (h piece hm).slash) hne]
  have hsteps : ((ofPieces true ps).chars.splitOn '/').filterMap
      (Route.step? '.' fun cs => Name.ofBytes? (String.ofList cs).toUTF8) = ps.map nameStep := by
    rw [hsplit, List.filterMap_cons_none (by rfl), filterMap_step?_names h]
  rw [Route.ofPath, Route.read, hsteps, if_neg fun hlast => getLast?_ofPieces h hne hlast.1, hchars]
  simp

theorem route_double_slash {p q : Path} (hq : q.isAbsolute = true)
    (h : p.chars = '/' :: q.chars) : Route.ofPath p = Route.ofPath q := by
  obtain ⟨rest, hrest⟩ := isAbsolute_iff.mp hq
  have hsteps : (p.chars.splitOn '/').filterMap
        (Route.step? '.' fun cs => Name.ofBytes? (String.ofList cs).toUTF8) =
      (q.chars.splitOn '/').filterMap
        (Route.step? '.' fun cs => Name.ofBytes? (String.ofList cs).toUTF8) := by
    rw [h, List.splitOn_cons_eq_if_modifyHead, if_pos BEq.rfl, List.filterMap_cons_none (by rfl)]
  have hlast : p.chars.getLast? = q.chars.getLast? := by rw [h, hrest, List.getLast?_cons_cons]
  rw [Route.ofPath, Route.ofPath, Route.read, Route.read, hsteps, hlast, h, hrest]
  simp

/-- A path that spells out a place, which the system takes as it is. -/
structure Spells (p : Path) (loc : Location) : Prop where
  clean : p.Clean
  nul : '\x00' ∉ p.chars
  size : p.text.utf8ByteSize ≤ FileSystem.maxPath
  route : Route.ofPath p = ⟨true, loc.reverse.map .enter⟩

/-- A path without a NUL that is short enough, and of which every name is. -/
structure Legal (p : Path) : Prop where
  nul : '\x00' ∉ p.chars
  size : p.text.utf8ByteSize ≤ FileSystem.maxPath
  names : Step.tooLong ∉ (Route.ofPath p).steps

instance (p : Path) : Decidable p.Legal :=
  decidable_of_iff ('\x00' ∉ p.chars ∧ p.text.utf8ByteSize ≤ FileSystem.maxPath ∧
    Step.tooLong ∉ (Route.ofPath p).steps)
    ⟨fun h => ⟨h.1, h.2.1, h.2.2⟩, fun h => ⟨h.nul, h.size, h.names⟩⟩

theorem Clean.spells {p : Path} (h : p.Clean) (hlegal : p.Legal) :
    p.Spells (Location.ofPath p) := by
  refine ⟨h, hlegal.nul, hlegal.size, ?_⟩
  have hlong := hlegal.names
  obtain ⟨ps, rfl, hps⟩ := h
  rw [Location.ofPath, List.reverse_reverse, route_ofPieces hps, Route.names]
  rw [route_ofPieces hps] at hlong
  clear hps hlegal
  congr 1
  induction ps with
  | nil => rfl
  | cons piece rest ih =>
    rw [List.map_cons, List.mem_cons, not_or] at hlong
    rcases nameStep_cases piece with hstep | ⟨name, hstep⟩
    · exact absurd hstep.symm hlong.1
    · simpa [hstep] using ih hlong.2

theorem text_snoc {ps : List Piece} (last : Piece) :
    (ofPieces true (ps ++ [last])).text =
      (if ps = [] then "" else (ofPieces true ps).text) ++ "/" ++ String.ofList last := by
  apply String.toList_injective
  by_cases hne : ps = []
  · subst hne
    simp [ofPieces, ofChars]
  · simp [ofPieces, ofChars, hne, intercalate_append hne (List.cons_ne_nil _ _)]

theorem bytes_of_nameStep {piece : Piece} {name : Name} (h : nameStep piece = .enter name) :
    name.bytes = (String.ofList piece).toUTF8 := by
  unfold nameStep Name.ofBytes? at h
  split at h
  · cases h
    rfl
  · cases h

/-- The absolute path of a place is no longer than a text that spells it out. -/
theorem size_names_le {ps : List Piece} {names : List Name}
    (h : ps.map nameStep = names.map .enter) :
    Location.size names.reverse ≤ (ofPieces true ps).text.utf8ByteSize := by
  induction ps using List.reverseRecOn generalizing names with
  | nil =>
    obtain rfl : names = [] := by simpa using h.symm
    exact Nat.zero_le _
  | append_singleton init last ih =>
    have hne : names ≠ [] := by
      rintro rfl
      simp at h
    obtain ⟨outer, name, rfl⟩ := (List.eq_nil_or_concat names).resolve_left hne
    rw [List.concat_eq_append] at h ⊢
    rw [List.map_append, List.map_append] at h
    obtain ⟨hinit, hlast⟩ := List.append_inj' h rfl
    have hbytes : name.bytes.size = (String.ofList last).utf8ByteSize :=
      congrArg ByteArray.size (bytes_of_nameStep (List.singleton_inj.mp hlast))
    have houter : Location.size outer.reverse ≤
        (if init = [] then "" else (ofPieces true init).text).utf8ByteSize := by
      split
      · next hnil =>
        obtain rfl : outer = [] := by simpa [hnil] using hinit.symm
        exact Nat.le_refl _
      · exact ih hinit
    rw [List.reverse_append, List.reverse_singleton, List.singleton_append, Location.size, hbytes,
      text_snoc, String.utf8ByteSize_append, String.utf8ByteSize_append]
    exact Nat.add_le_add_right (Nat.add_le_add_right houter 1) _

theorem utf8ByteSize_le {p q : Path} (h : q.chars <+: p.chars) :
    q.text.utf8ByteSize ≤ p.text.utf8ByteSize := by
  obtain ⟨rest, hrest⟩ := h
  have htext : p.text = q.text ++ String.ofList rest :=
    String.toList_injective (by rw [String.toList_append, String.toList_ofList]; exact hrest.symm)
  rw [htext, String.utf8ByteSize_append]
  exact Nat.le_add_right _ _

theorem chars_initial {ps : List Piece} (last : Piece) :
    (ofPieces true ps).chars <+: (ofPieces true (ps ++ [last])).chars := by
  rw [chars_ofPieces, chars_ofPieces, List.prefix_append_right_inj]
  by_cases hne : ps = []
  · subst hne
    exact List.nil_prefix
  · rw [intercalate_append hne (List.cons_ne_nil _ _), List.append_assoc]
    exact List.prefix_append _ _

theorem Spells.size_place {p : Path} {loc : Location} (h : p.Spells loc) :
    Location.size loc ≤ FileSystem.maxPath := by
  obtain ⟨ps, rfl, hps⟩ := h.clean
  have hroute := congrArg Route.steps (h.route.symm.trans (route_ofPieces hps))
  have hsize := size_names_le hroute.symm
  rw [List.reverse_reverse] at hsize
  exact Nat.le_trans hsize h.size

/-- Where no link is in the way, a walk along names that finds a place finds the one that they
spell out, and none of them is too long. -/
theorem straight_walk {fs : FileSystem} {purpose : Purpose} {links : Nat} {loc place : Location}
    {ps : List Piece}
    (hlinks : ∀ outer, outer <:+ (Route.mk true (ps.map nameStep)).names.reverse ++ loc →
      ∀ target, fs.node? outer ≠ some (.link target))
    (h : FileSystem.Walk fs purpose links loc (ps.map nameStep) (.found place)) :
    Step.tooLong ∉ ps.map nameStep ∧
      place = (Route.mk true (ps.map nameStep)).names.reverse ++ loc := by
  induction ps generalizing loc with
  | nil =>
    cases h
    exact ⟨List.not_mem_nil, rfl⟩
  | cons piece rest ih =>
    have hnames {name : Name} (hstep : nameStep piece = .enter name) :
        (Route.mk true ((piece :: rest).map nameStep)).names.reverse ++ loc =
          (Route.mk true (rest.map nameStep)).names.reverse ++ name :: loc := by
      simp [Route.names, hstep]
    rw [List.map_cons] at h
    generalize hsteps : rest.map nameStep = steps at h
    rcases nameStep_cases piece with hstep | ⟨name, hstep⟩
    · rw [hstep] at h
      rcases h with _ | ⟨hidle | hidle, -, -⟩ <;> cases hidle
    · rw [hnames hstep] at hlinks ⊢
      rw [hstep] at h
      cases h with
      | idle hidle => rcases hidle with hidle | hidle <;> cases hidle
      | enter _ _ _ _ hrest =>
        obtain ⟨hnone, rfl⟩ := ih hlinks (hsteps ▸ hrest)
        exact ⟨by simpa [hstep] using hnone, rfl⟩
      | obstacle _ _ hnode => exact absurd hnode (hlinks _ (List.suffix_append _ _) _)
      | follow _ _ hnode => exact absurd hnode (hlinks _ (List.suffix_append _ _) _)

theorem Spells.parent {p : Path} {name : Name} {dir : Location} (h : p.Spells (name :: dir)) :
    ∃ q, p.parent? = some q ∧ q.Spells dir := by
  obtain ⟨ps, rfl, hps⟩ := h.clean
  have hroute := congrArg Route.steps (h.route.symm.trans (route_ofPieces hps))
  simp only [List.reverse_cons, List.map_append, List.map_cons, List.map_nil] at hroute
  rcases List.eq_nil_or_concat ps with rfl | ⟨init, last, rfl⟩
  · simp at hroute
  rw [List.concat_eq_append] at hps hroute h ⊢
  rw [List.map_append] at hroute
  obtain ⟨hinit, -⟩ := List.append_inj' hroute rfl
  have hnames : ∀ piece ∈ init, IsName piece := fun _ hm => hps _ (List.mem_append_left _ hm)
  refine ⟨ofPieces true init, parent_ofPieces hps, ⟨init, rfl, hnames⟩, ?_, ?_, ?_⟩
  · exact fun hm => h.nul ((chars_initial last).subset hm)
  · exact Nat.le_trans (utf8ByteSize_le (chars_initial last)) h.size
  · rw [route_ofPieces hnames, hinit]

theorem Spells.root {p : Path} (h : p.Spells []) : p.parents = [] ∧ p.text ≠ "" := by
  obtain ⟨ps, rfl, hps⟩ := h.clean
  have hroute := congrArg Route.steps (h.route.symm.trans (route_ofPieces hps))
  obtain rfl : ps = [] := by simpa using hroute.symm
  exact ⟨parents_root, by decide⟩

theorem Spells.text_ne_empty {p : Path} {loc : Location} (h : p.Spells loc) : p.text ≠ "" := by
  intro hempty
  obtain ⟨rest, hrest⟩ := isAbsolute_iff.mp h.clean.isAbsolute
  rw [chars, hempty] at hrest
  cases hrest

end Path

namespace Disk

open FileSystem

variable {d : Disk} {p : Path} {loc dir : Location} {name : Name} {purpose : Purpose}

theorem follow_spells (h : p.Spells loc) :
    d.follow purpose p = match d.tree.walk purpose maxLinks [] (loc.reverse.map .enter) with
      | .ok spot => .ok spot
      | .error errno => .error (.os errno) := by
  have hfilter : (loc.reverse.map Step.enter).filter (· ≠ .slash) = loc.reverse.map .enter := by
    refine List.filter_eq_self.mpr fun step hm => ?_
    obtain ⟨_, -, rfl⟩ := List.mem_map.mp hm
    rfl
  have hsteps : stepsFor purpose (loc.reverse.map .enter) = loc.reverse.map .enter := by
    rw [stepsFor, hfilter, ite_self]
  have hreach : d.tree.reach purpose d.cwd (Route.ofPath p) =
      d.tree.walk purpose maxLinks [] (loc.reverse.map .enter) := by
    rw [h.route, FileSystem.reach, if_pos rfl, hsteps]
  rw [follow, if_neg (by simpa using h.nul), Disk.walk]
  cases hwalk : d.tree.walk purpose maxLinks [] (loc.reverse.map .enter) with
  | ok spot => simp only [hreach, hwalk]
  | error errno => simp only [hreach, hwalk]

theorem reach_spells (h : p.Spells loc) : d.reach purpose p = d.follow purpose p := by
  rw [reach, if_neg fun hlong => Nat.not_lt.mpr h.size hlong.1]

theorem follow_spells_found (h : p.Spells loc) {node : Node}
    (hnode : d.tree.node? loc = some node) (hsolid : node.IsSolid) :
    d.follow purpose p = .ok (.found loc) := by
  have hwalk := @walk_names d.tree purpose maxLinks [] loc.reverse node
    (by simpa using h.size_place) (by simpa using hnode) hsolid
  rw [List.reverse_reverse, List.append_nil] at hwalk
  rw [follow_spells h, hwalk.walk_eq]

theorem follow_spells_vacant (h : p.Spells (name :: dir)) (hdir : d.tree.node? dir = some .dir)
    (hnone : d.tree.node? (name :: dir) = none) :
    d.follow purpose p = .ok (.vacant dir name) := by
  have hwalk := @walk_names_vacant d.tree purpose maxLinks [] dir.reverse name
    (by simpa using h.size_place) (by simpa using hdir) (by simpa using hnone)
  rw [List.reverse_reverse, List.append_nil, ← List.reverse_cons] at hwalk
  rw [follow_spells h, hwalk.walk_eq]

def Clear (d : Disk) (loc : Location) : Prop :=
  ∀ outer, outer <:+ loc → d.tree.node? outer = none ∨ d.tree.node? outer = some .dir

theorem Clear.outer (h : d.Clear (name :: dir)) : d.Clear dir :=
  fun _ hsuffix => h _ (hsuffix.trans (List.suffix_cons name dir))

theorem follow_spells_missing (h : p.Spells (name :: dir)) (hclear : d.Clear dir)
    (hnone : d.tree.node? dir = none) : d.follow purpose p = .error (.os .noEntry) := by
  have hsize : Location.size dir ≤ maxPath :=
    Nat.le_trans (size_le_append [name] dir) h.size_place
  have hwalk := @walk_names_missing d.tree purpose maxLinks [] dir.reverse name
    (by simpa using hsize) (by simpa [Clear] using hclear) (node?_nil _) (by simpa using hnone)
  rw [← List.reverse_cons] at hwalk
  rw [follow_spells h, hwalk]

theorem locate_spells (h : p.Spells loc) {node : Node} (hnode : d.tree.node? loc = some node)
    (hsolid : node.IsSolid) : d.locate p = .ok loc :=
  locate_eq_ok_iff.mpr ⟨h.size, follow_spells_found h hnode hsolid⟩

theorem trace_spells (h : p.Spells loc) {node : Node} (hnode : d.tree.node? loc = some node)
    (hsolid : node.IsSolid) : d.trace p = .ok loc :=
  trace_eq_ok_iff.mpr (follow_spells_found h hnode hsolid)

def Unlinked (d : Disk) (loc : Location) : Prop :=
  ∀ outer, outer <:+ loc → ∀ target, d.tree.node? outer ≠ some (.link target)

/-- A path that leads somewhere without a link spells out where it leads. -/
theorem spells_of_locate (hclean : p.Clean) (hlinks : d.Unlinked (Location.ofPath p))
    (h : d.locate p = .ok loc) : p.Spells loc := by
  obtain ⟨hsize, hfollow⟩ := locate_eq_ok_iff.mp h
  obtain ⟨hnul, hspot⟩ := follow_eq_ok_iff.mp hfollow
  obtain ⟨-, hwalk⟩ := FileSystem.reach_eq_ok_iff.mp hspot
  obtain ⟨ps, rfl, hps⟩ := hclean
  have hroute := Path.route_ofPieces hps
  rw [Unlinked, Location.ofPath, hroute, ← List.append_nil (List.reverse _)] at hlinks
  rw [hroute, stepsFor_of_ne_claim (by decide), Route.start, if_pos rfl] at hwalk
  obtain ⟨hlong, rfl⟩ := Path.straight_walk hlinks hwalk
  have hspells := Path.Clean.spells ⟨ps, rfl, hps⟩ ⟨hnul, hsize, hroute ▸ hlong⟩
  rwa [Location.ofPath, hroute, ← List.append_nil (List.reverse _)] at hspells

theorem isDir_spells (h : p.Spells loc) (hdir : d.tree.node? loc = some .dir) :
    d.isDir p = true := by
  rw [isDir, Disk.node?, locate_spells h hdir Node.isSolid_dir]
  exact decide_eq_true hdir

theorem makeDir_spells_vacant (h : p.Spells (name :: dir)) (hdir : d.tree.node? dir = some .dir)
    (hnone : d.tree.node? (name :: dir) = none) :
    ∃ made, d.makeDir p = .ok made ∧ made.tree.node? (name :: dir) = some .dir := by
  refine ⟨_, by rw [makeDir, reach_spells h, follow_spells_vacant h hdir hnone], ?_⟩
  dsimp only
  rw [node?_put hdir fun _ => rfl, if_pos rfl]

theorem makeDir_spells_found (h : p.Spells loc) (hdir : d.tree.node? loc = some .dir) :
    d.makeDir p = .error (.os .alreadyExists) := by
  rw [makeDir, reach_spells h, follow_spells_found h hdir Node.isSolid_dir]

theorem makeDir_spells_missing (h : p.Spells (name :: dir)) (hclear : d.Clear dir)
    (hnone : d.tree.node? dir = none) : d.makeDir p = .error (.os .noEntry) := by
  rw [makeDir, reach_spells h, follow_spells_missing h hclear hnone]

theorem makeAlong_spells_found (h : p.Spells loc) (hdir : d.tree.node? loc = some .dir) :
    d.makeAlong p.ancestors = (.ok (), d) := by
  rw [Path.ancestors, makeAlong, if_neg h.text_ne_empty, makeDir_spells_found h hdir]
  dsimp only
  rw [if_neg (by decide), if_pos (isDir_spells h hdir)]

theorem makeAlong_spells (h : p.Spells loc) (hclear : d.Clear loc) :
    (d.makeAlong p.ancestors).1 = .ok () ∧
      (d.makeAlong p.ancestors).2.tree.node? loc = some .dir := by
  induction loc generalizing p with
  | nil =>
    rw [makeAlong_spells_found h (node?_nil _)]
    exact ⟨rfl, node?_nil _⟩
  | cons name dir ih =>
    rcases hclear (name :: dir) (List.suffix_refl _) with hnone | hdir
    · rcases hclear dir (List.suffix_cons name dir) with houter | houter
      · obtain ⟨q, hparent, hq⟩ := h.parent
        obtain ⟨hmade, hdir⟩ := ih hq hclear.outer
        have hadds := makeAlong_adds d q.ancestors
        rw [Path.ancestors, ← Path.ancestors_of_parent hparent, makeAlong, if_neg h.text_ne_empty,
          makeDir_spells_missing h hclear.outer houter]
        dsimp only
        rw [if_pos rfl]
        rcases hq' : d.makeAlong q.ancestors with ⟨result, left⟩
        rw [hq'] at hmade hdir hadds
        dsimp only at hmade hdir hadds
        subst hmade
        dsimp only
        rcases hadds.node (name :: dir) with heq | ⟨-, hdir', -⟩
        · obtain ⟨made, hmake, hnode⟩ := makeDir_spells_vacant h hdir (heq.trans hnone)
          rw [hmake]
          exact ⟨rfl, hnode⟩
        · rw [makeDir_spells_found h hdir', isDir_spells h hdir']
          exact ⟨rfl, hdir'⟩
      · obtain ⟨made, hmake, hnode⟩ := makeDir_spells_vacant h houter hnone
        rw [Path.ancestors, makeAlong, if_neg h.text_ne_empty, hmake]
        exact ⟨rfl, hnode⟩
    · rw [makeAlong_spells_found h hdir]
      exact ⟨rfl, hdir⟩

/-- Whether a file can be written at a place, once the directories above it are made. -/
structure CanHold (d : Disk) (loc : Location) : Prop where
  node : d.tree.node? loc = none ∨ ∃ c, d.tree.node? loc = some (.file c)
  outer : ∀ outer, outer <:+ loc → outer ≠ loc →
    d.tree.node? outer = none ∨ d.tree.node? outer = some .dir

theorem canHold_iff :
    d.CanHold loc ↔
      (d.tree.node? loc = none ∨ (d.tree.node? loc).any Node.isFile = true) ∧
        ∀ outer ∈ loc.tails, outer = loc ∨ d.tree.node? outer = none ∨
          d.tree.node? outer = some .dir := by
  have hfile : (d.tree.node? loc).any Node.isFile = true ↔
      ∃ c, d.tree.node? loc = some (.file c) := by
    rcases d.tree.node? loc with _ | (_ | c | target) <;> simp [Node.isFile]
  rw [hfile]
  constructor
  · intro h
    refine ⟨h.node, fun outer hm => ?_⟩
    exact (Decidable.em (outer = loc)).imp_right (h.outer outer ((List.mem_tails _ _).mp hm))
  · rintro ⟨hnode, houter⟩
    exact ⟨hnode, fun outer hsuffix hne =>
      (houter outer ((List.mem_tails _ _).mpr hsuffix)).resolve_left hne⟩

instance (d : Disk) (loc : Location) : Decidable (d.CanHold loc) :=
  decidable_of_iff _ canHold_iff.symm

theorem CanHold.clear (h : d.CanHold (name :: dir)) : d.Clear dir := by
  intro outer hsuffix
  refine h.outer outer (hsuffix.trans (List.suffix_cons name dir)) ?_
  rintro rfl
  have hlength := hsuffix.length_le
  rw [List.length_cons] at hlength
  omega

theorem CanHold.eq_cons (h : d.CanHold loc) : ∃ name dir, loc = name :: dir := by
  cases loc with
  | nil => rcases h.node with hnone | ⟨c, hfile⟩ <;> simp_all [node?_nil]
  | cons name dir => exact ⟨name, dir, rfl⟩

theorem spells_of_mem_ancestors (h : p.Spells loc) {q : Path} (hq : q ∈ p.ancestors) :
    ∃ outer, outer <:+ loc ∧ q.Spells outer := by
  induction loc generalizing p with
  | nil =>
    rw [Path.ancestors, h.root.1, List.mem_singleton] at hq
    exact ⟨[], List.suffix_refl _, hq ▸ h⟩
  | cons name dir ih =>
    obtain ⟨parent, hparent, hspells⟩ := h.parent
    rcases List.mem_cons.mp hq with rfl | hq
    · exact ⟨name :: dir, List.suffix_refl _, h⟩
    · rw [← Path.ancestors_of_parent hparent] at hq
      obtain ⟨outer, hsuffix, houter⟩ := ih hspells hq
      exact ⟨outer, hsuffix.trans (List.suffix_cons name dir), houter⟩

/-- The directory for a file is made, and the file itself is left alone. -/
theorem makeParent_spells (h : p.Spells (name :: dir)) (hold : d.CanHold (name :: dir)) :
    (d.makeParent p).1 = .ok () ∧ (d.makeParent p).2.tree.node? dir = some .dir ∧
      (d.makeParent p).2.tree.node? (name :: dir) = d.tree.node? (name :: dir) := by
  obtain ⟨q, hparent, hq⟩ := h.parent
  have hadds := makeParent_adds d p
  obtain ⟨hmade, hdir⟩ := makeAlong_spells hq hold.clear
  have hresult : d.makeParent p = (.ok (), (d.makeAlong q.ancestors).2) := by
    rw [makeParent, hparent]
    dsimp only
    rw [makeDirs]
    rcases hrest : d.makeAlong q.ancestors with ⟨result, left⟩
    rw [hrest] at hmade
    cases hmade
    rfl
  refine ⟨by rw [hresult], by rw [hresult, hdir], ?_⟩
  rcases hadds.node (name :: dir) with heq | ⟨-, hnew, r, hr, hlocate⟩
  · exact heq
  · rw [← Path.ancestors_of_parent hparent] at hr
    obtain ⟨outer, ⟨inner, houter⟩, hr⟩ := spells_of_mem_ancestors hq hr
    -- an ancestor would have to lead to the place itself
    have hdir' : (d.makeParent p).2.tree.node? outer = some .dir := by
      refine node?_outer (List.cons_ne_nil name inner) ?_
      rw [List.cons_append, houter, hnew]
      rfl
    have heq := (locate_spells hr hdir' Node.isSolid_dir).symm.trans hlocate
    have hlength := congrArg List.length (Except.ok.inj heq)
    have hlength' := congrArg List.length houter
    simp only [List.length_append, List.length_cons] at hlength hlength'
    omega

theorem openEmpty_spells (h : p.Spells (name :: dir)) (hdir : d.tree.node? dir = some .dir)
    (hnode : d.tree.node? (name :: dir) = none ∨
      ∃ c, d.tree.node? (name :: dir) = some (.file c)) :
    ∃ loc opened, d.openEmpty p = .ok (loc, opened) := by
  rw [openEmpty, reach_spells h]
  rcases hnode with hnone | ⟨c, hfile⟩
  · rw [follow_spells_vacant h hdir hnone]
    exact ⟨_, _, rfl⟩
  · rw [follow_spells_found h hfile (Node.isSolid_file c)]
    dsimp only
    rw [if_neg (by simp [hfile])]
    exact ⟨_, _, rfl⟩

/-- Only a link on the way to a file can entangle it with the path of its delivery. -/
theorem not_entangled_spells {src : Path} {c : ByteArray} (hread : d.read src = .ok c)
    (hclean : src.Clean) (hlinks : d.Unlinked (Location.ofPath src)) (h : p.Spells loc)
    (hold : d.CanHold loc) : ¬ (d.makeParent p).2.Entangled src p := by
  obtain ⟨name, dir, rfl⟩ := hold.eq_cons
  obtain ⟨-, hdir, hnode⟩ := makeParent_spells h hold
  obtain ⟨source, hsource, hfile⟩ := read_eq_ok_iff.mp hread
  have hsrc := spells_of_locate hclean hlinks hsource
  have hready := (makeParent_adds d p).keeps hfile
  have htrace := trace_spells hsrc hready (Node.isSolid_file c)
  rcases hold.node with hnone | ⟨old, hold⟩
  · rintro ⟨place, -, hfound, -⟩
    rw [follow_spells_vacant h hdir (hnode.trans hnone)] at hfound
    cases hfound
  · exact not_entangled_of_trace htrace
      (trace_spells h (hnode.trans hold) (Node.isSolid_file old))

theorem deliver_spells {src : Path} {c : ByteArray} (hread : d.read src = .ok c)
    (h : p.Spells loc) (hold : d.CanHold loc) :
    ∃ delivery left, d.deliver src p = (.ok delivery, left) := by
  obtain ⟨name, dir, rfl⟩ := hold.eq_cons
  obtain ⟨hmade, hdir, hnode⟩ := makeParent_spells h hold
  have hready := read_makeParent hread p
  obtain ⟨source, hsource, hfile⟩ := read_eq_ok_iff.mp hready
  rw [deliver, size_of_read hread]
  rcases hmake : d.makeParent p with ⟨result, ready⟩
  rw [hmake] at hmade hdir hnode hsource hfile
  dsimp only at hmade hdir hnode hsource hfile
  subst hmade
  obtain ⟨target, opened, hopen⟩ := openEmpty_spells h hdir (hnode ▸ hold.node)
  have hcopy : ∃ bytes left, ready.copy src p = (.ok bytes, left) := by
    rw [copy, hsource]
    dsimp only
    rw [hfile, hopen]
    dsimp only
    split <;> exact ⟨_, _, rfl⟩
  obtain ⟨bytes, left, hcopy⟩ := hcopy
  dsimp only
  rw [place, hcopy]
  split <;> exact ⟨_, _, rfl⟩

end Disk

end WasmBuild
