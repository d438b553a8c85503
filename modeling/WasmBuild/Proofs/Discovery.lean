import WasmBuild.FileSystem.Edit
import WasmBuild.Proofs.Nests

/-! The discovery of a project. The search goes by the text of the working directory and its
result is free of links, so that the project is found again by its result. What keeps it from
being found is the length of paths alone. -/

namespace WasmBuild

namespace Location

theorem utf8ByteSize_le {loc : Location} {ps : List Path.Piece} (h : loc.Shows ps) :
    (Path.ofPieces true ps).text.utf8ByteSize ≤ max 1 (Location.size loc) := by
  induction loc generalizing ps with
  | nil =>
    obtain rfl : ps = [] := by simpa [Shows] using h
    decide
  | cons name dir ih =>
    rcases List.eq_nil_or_concat ps with rfl | ⟨init, last, rfl⟩
    · simp [Shows] at h
    rw [List.concat_eq_append] at h ⊢
    rw [Shows, List.reverse_cons, List.map_append, List.map_append] at h
    obtain ⟨hinit, hlast⟩ := List.append_inj' h rfl
    have hname : name.bytes.size = (String.ofList last).utf8ByteSize :=
      congrArg ByteArray.size (List.singleton_inj.mp hlast)
    rw [Path.text_snoc, String.utf8ByteSize_append, String.utf8ByteSize_append, Location.size,
      hname]
    have hslash : "/".utf8ByteSize = 1 := rfl
    split
    · have hempty : "".utf8ByteSize = 0 := rfl
      omega
    · next hne =>
      have houter := ih hinit
      have hpos : 1 ≤ Location.size dir := by
        cases dir with
        | nil => exact absurd (by simpa using hinit.symm) hne
        | cons outer rest =>
          rw [Location.size]
          omega
      omega

end Location

namespace FileSystem

theorem Walk.size_le {fs : FileSystem} {links : Nat} {loc place : Location} {steps : List Step}
    {spot : Spot} (h : Walk fs .trace links loc steps spot) (hspot : spot = .found place)
    (hloc : Location.size loc ≤ maxPath) : Location.size place ≤ maxPath := by
  induction h with
  | stop =>
    cases hspot
    exact hloc
  | idle _ _ _ ih => exact ih hspot hloc
  | @up _ loc _ _ _ _ ih =>
    refine ih hspot (Nat.le_trans ?_ hloc)
    cases loc with
    | nil => exact Nat.le_refl _
    | cons name dir => exact size_le_append [name] dir
  | enter hallows _ _ _ _ ih => exact ih hspot (Nat.not_lt.mp fun hlong => hallows.1 ⟨rfl, hlong⟩)
  | vacant => cases hspot
  | obstacle _ hclaim => cases hclaim
  | @follow _ loc _ target _ _ _ _ _ _ _ ih =>
    refine ih hspot ?_
    rw [linkStart]
    split
    · exact Nat.zero_le _
    · exact hloc

end FileSystem

namespace Disk

open FileSystem

variable {d : Disk} {p : Path} {loc : Location} {node : Node}

theorem size_of_trace (habs : p.isAbsolute = true) (h : d.trace p = .ok loc) :
    Location.size loc ≤ maxPath := by
  obtain ⟨-, hspot⟩ := follow_eq_ok_iff.mp (trace_eq_ok_iff.mp h)
  obtain ⟨-, hwalk⟩ := FileSystem.reach_eq_ok_iff.mp hspot
  rw [Route.start, if_pos ((Route.absolute_ofPath p).trans habs)] at hwalk
  exact hwalk.size_le rfl (Nat.zero_le _)

theorem trace_of_long (habs : p.isAbsolute = true) (h : d.follow .find p = .ok (.found loc))
    (hlong : maxPath < Location.size loc) : d.trace p = .error (.os .nameTooLong) := by
  refine (trace_of_follow h).resolve_left fun htrace => ?_
  have hsize := size_of_trace habs htrace
  omega

theorem unlinked_of_node (hnode : d.tree.node? loc = some node) (hsolid : node.IsSolid) :
    d.Unlinked loc := by
  rintro outer ⟨inner, rfl⟩ target hlink
  by_cases hinner : inner = []
  · rw [hinner, List.nil_append, hlink] at hnode
    exact hsolid target (Option.some.inj hnode).symm
  · rw [node?_outer hinner (by rw [hnode]; rfl)] at hlink
    cases hlink

end Disk

namespace Project

open FileSystem

variable {d : Disk} {p r dir cwd : Path} {loc : Location}

/-- The description of a package is found from a place. -/
def Marks (d : Disk) (loc : Location) : Prop :=
  ∃ links file content, links ≤ maxLinks ∧ d.tree.node? file = some (.file content) ∧
    Walk d.tree .find links loc [Path.nameStep Config.packageName.toList] (.found file)

theorem follow_of_isMarked (habs : dir.isAbsolute = true) (h : isMarked d dir = true) :
    ∃ loc, d.follow .find dir = .ok (.found loc) ∧ d.tree.node? loc = some .dir ∧
      Marks d loc := by
  obtain ⟨content, hread⟩ := Disk.isFile_iff.mp h
  obtain ⟨file, hlocate, hfile⟩ := Disk.read_eq_ok_iff.mp hread
  obtain ⟨loc, links, hloc, hdir, hlinks, hwalk⟩ :=
    Disk.follow_outer (Path.continues_of_join habs (by decide)) (List.cons_ne_nil _ _)
      (Disk.locate_eq_ok_iff.mp hlocate).2
  exact ⟨loc, hloc, hdir, links, file, content, hlinks, hfile, hwalk⟩

theorem isMarked_of_walk {ps : List Path.Piece} {file : Location} {content : ByteArray}
    (hnames : ∀ piece ∈ ps, Path.IsName piece) (hnul : ∀ piece ∈ ps, '\x00' ∉ piece)
    (hwalk : Walk d.tree .find maxLinks []
      (ps.map Path.nameStep ++ [Path.nameStep Config.packageName.toList]) (.found file))
    (hfile : d.tree.node? file = some (.file content))
    (hfits : ((Path.ofPieces true ps).join ⟨Config.packageName⟩).text.utf8ByteSize ≤ maxPath) :
    isMarked d (Path.ofPieces true ps) = true := by
  have hname : Path.IsName Config.packageName.toList := by decide
  have hall : ∀ piece ∈ ps ++ [Config.packageName.toList],
      Path.IsName piece ∧ '\x00' ∉ piece := by
    intro piece hm
    rcases List.mem_append.mp hm with hm | hm
    · exact ⟨hnames piece hm, hnul piece hm⟩
    · rw [List.mem_singleton.mp hm]
      decide
  have hfollow : d.follow .find (Path.ofPieces true (ps ++ [Config.packageName.toList])) =
      .ok (.found file) := by
    rw [Disk.follow_eq_ok_iff, FileSystem.reach_eq_ok_iff,
      Path.route_ofPieces fun piece hm => (hall piece hm).1, stepsFor_of_ne_claim (by decide),
      List.map_append]
    exact ⟨Path.nul_not_mem_ofPieces fun piece hm => (hall piece hm).2, nofun, hwalk⟩
  rw [Path.join_ofPieces hnames hname] at hfits
  rw [isMarked, Path.join_ofPieces hnames hname]
  exact Disk.isFile_iff.mpr ⟨content, Disk.read_eq_ok_iff.mpr
    ⟨file, Disk.locate_eq_ok_iff.mpr ⟨hfits, hfollow⟩, hfile⟩⟩

theorem size_of_marked (h : isMarked d p = true) :
    (p.join ⟨Config.packageName⟩).text.utf8ByteSize ≤ maxPath := by
  obtain ⟨content, hread⟩ := Disk.isFile_iff.mp h
  obtain ⟨file, hlocate, -⟩ := Disk.read_eq_ok_iff.mp hread
  exact (Disk.locate_eq_ok_iff.mp hlocate).1

/-- A marked place is marked by its own path, if the description can be looked up there. -/
theorem isMarked_iff_of_marks {ps : List Path.Piece} (hshows : loc.Shows ps)
    (hsize : Location.size loc ≤ maxPath) (hdir : d.tree.node? loc = some .dir)
    (hmarks : Marks d loc) :
    isMarked d (Path.ofPieces true ps) = true ↔
      ((Path.ofPieces true ps).join ⟨Config.packageName⟩).text.utf8ByteSize ≤ maxPath := by
  refine ⟨size_of_marked, fun hfits => ?_⟩
  obtain ⟨links, file, content, hlinks, hfile, hwalk⟩ := hmarks
  have hin : Walk d.tree .find 0 [] (ps.map Path.nameStep) (.found loc) := by
    have hin := @walk_names d.tree .find 0 [] loc.reverse .dir (by simpa using hsize)
      (by simpa using hdir) Node.isSolid_dir
    rw [List.reverse_reverse, List.append_nil] at hin
    rwa [hshows.steps]
  have hall := (hin.append rfl hwalk).weaken (Nat.le_trans (Nat.zero_add links).le hlinks)
  exact isMarked_of_walk hshows.isName hshows.nul hall hfile hfits

theorem canonical_eq_ok_iff :
    canonical d p = .ok r ↔ ∃ loc, d.trace p = .ok loc ∧ Location.path? loc = some r := by
  rw [canonical]
  cases d.trace p with
  | error e => simp
  | ok loc =>
    dsimp only
    cases hpath : Location.path? loc with
    | none => simp [hpath]
    | some path => simp [hpath]

theorem canonical_ne_notFound : canonical d p ≠ .error (.projectNotFound cwd) := by
  intro h
  rw [canonical] at h
  split at h
  · cases h
  · split at h
    · cases h
    · cases h

theorem canonical_fixed (habs : p.isAbsolute = true) (h : canonical d p = .ok r) :
    ∃ loc ps, d.trace p = .ok loc ∧ loc.Shows ps ∧ r = Path.ofPieces true ps ∧
      Location.size loc ≤ maxPath ∧ d.Unlinked loc ∧ canonical d r = .ok r := by
  obtain ⟨loc, htrace, hpath⟩ := canonical_eq_ok_iff.mp h
  obtain ⟨ps, hshows, rfl⟩ := Location.path?_eq_some_iff.mp hpath
  have hsize := Disk.size_of_trace habs htrace
  obtain ⟨node, hnode, hsolid⟩ :=
    Disk.node_of_follow (by decide) (Disk.trace_eq_ok_iff.mp htrace)
  have hfits : (Path.ofPieces true ps).text.utf8ByteSize ≤ maxPath :=
    Nat.le_trans (Location.utf8ByteSize_le hshows) (Nat.max_le.mpr ⟨by decide, hsize⟩)
  have hagain := Disk.trace_spells (hshows.spells hfits) hnode hsolid
  exact ⟨loc, ps, htrace, hshows, rfl, hsize, Disk.unlinked_of_node hnode hsolid,
    canonical_eq_ok_iff.mpr ⟨loc, hagain, hpath⟩⟩

theorem choose_none_eq_ok_iff :
    choose d none cwd = .ok dir ↔ cwd.ancestors.find? (isMarked d) = some dir := by
  rw [choose_none]
  cases cwd.ancestors.find? (isMarked d) with
  | none => simp
  | some first => simp

theorem find_of_choose {explicit : Option Path} (h : choose d explicit cwd = .ok p) :
    find d explicit cwd = canonical d p := by
  rw [find, h]
  rfl

theorem find_eq_ok_iff {explicit : Option Path} :
    find d explicit cwd = .ok r ↔
      ∃ p, choose d explicit cwd = .ok p ∧ canonical d p = .ok r := by
  cases hchoose : choose d explicit cwd with
  | error e =>
    refine ⟨fun h => ?_, nofun⟩
    rw [find, hchoose] at h
    cases h
  | ok p => simp [find_of_choose hchoose]

theorem choose_of_marked (h : isMarked d p = true) : choose d none p = .ok p := by
  rw [choose_none_eq_ok_iff, Path.ancestors, List.find?_cons, h]

theorem choose_of_nearest {before after : List Path}
    (hancestors : cwd.ancestors = before ++ dir :: after)
    (hbefore : ∀ q ∈ before, isMarked d q = false) (hmarked : isMarked d dir = true) :
    choose d none cwd = .ok dir := by
  rw [choose_none_eq_ok_iff, List.find?_eq_some_iff_append]
  exact ⟨hmarked, before, after, hancestors, fun q hq => by simp [hbefore q hq]⟩

theorem find_eq_notFound_iff :
    find d none cwd = .error (.projectNotFound cwd) ↔
      ∀ q ∈ cwd.ancestors, isMarked d q = false := by
  cases hfind : cwd.ancestors.find? (isMarked d) with
  | none =>
    have hnone := List.find?_eq_none.mp hfind
    rw [find, choose_none, hfind]
    exact iff_of_true rfl fun q hq => by simpa using hnone q hq
  | some dir =>
    have hmarked := List.find?_some hfind
    rw [find_of_choose (choose_none_eq_ok_iff.mpr hfind)]
    refine iff_of_false canonical_ne_notFound fun hall => ?_
    rw [hall dir (List.mem_of_find?_eq_some hfind)] at hmarked
    cases hmarked

theorem canonical_of_follow (h : d.follow .find dir = .ok (.found loc)) :
    (d.trace dir = .error (.os .nameTooLong) ∧
        canonical d dir = .error (.io dir (.os .nameTooLong))) ∨
      d.trace dir = .ok loc ∧
        ((∃ r, Location.path? loc = some r ∧ canonical d dir = .ok r) ∨
          Location.path? loc = none ∧
            canonical d dir = .error (.pathNotText (Location.bytes loc))) := by
  rw [canonical]
  rcases Disk.trace_of_follow h with htrace | htrace
  · rw [htrace]
    refine .inr ⟨rfl, ?_⟩
    dsimp only
    cases hpath : Location.path? loc with
    | none => exact .inr ⟨rfl, rfl⟩
    | some r => exact .inl ⟨r, rfl, rfl⟩
  · rw [htrace]
    exact .inl ⟨rfl, rfl⟩

theorem ancestors_ofPieces {ps : List Path.Piece} {q : Path}
    (hnames : ∀ piece ∈ ps, Path.IsName piece) (hq : q ∈ (Path.ofPieces true ps).ancestors) :
    ∃ front back, ps = front ++ back ∧ q = Path.ofPieces true front := by
  induction ps using List.reverseRecOn with
  | nil =>
    rw [Path.ancestors, Path.parents_root, List.mem_singleton] at hq
    exact ⟨[], [], rfl, hq⟩
  | append_singleton init last ih =>
    rcases List.mem_cons.mp hq with rfl | hq
    · exact ⟨init ++ [last], [], (List.append_nil _).symm, rfl⟩
    · rw [← Path.ancestors_of_parent (Path.parent_ofPieces hnames)] at hq
      obtain ⟨front, back, rfl, hfront⟩ :=
        ih (fun piece hm => hnames piece (List.mem_append_left _ hm)) hq
      exact ⟨front, back ++ [last], List.append_assoc front back [last], hfront⟩

/-- From a directory by its own path the search finds that directory only where it is marked. -/
theorem find_self_iff (h : d.IsCanonicalDir r) :
    find d none r = .ok r ↔ isMarked d r = true := by
  refine ⟨fun hfind => ?_, find_self h⟩
  obtain ⟨q, hchoose, hcanonical⟩ := find_eq_ok_iff.mp hfind
  have hfirst := choose_none_eq_ok_iff.mp hchoose
  have hmarked := List.find?_some hfirst
  obtain ⟨loc, ps, hdir, hshows, rfl⟩ := h.shows
  obtain ⟨front, back, rfl, rfl⟩ :=
    ancestors_ofPieces hshows.isName (List.mem_of_find?_eq_some hfirst)
  -- what is around a directory without links is told as itself
  have hself := canonical_of_isMarked (h.outer hshows.isName) hmarked
  rw [← Except.ok.inj (hself.symm.trans hcanonical)]
  exact hmarked

theorem find_again {explicit : Option Path} (habs : cwd.isAbsolute = true)
    (h : find d explicit cwd = .ok r) :
    ∃ p loc ps, choose d explicit cwd = .ok p ∧ d.trace p = .ok loc ∧ loc.Shows ps ∧
      r = Path.ofPieces true ps ∧ Location.size loc ≤ maxPath ∧ d.Unlinked loc ∧
      ∀ other, find d (some r) other = .ok r := by
  obtain ⟨p, hchoose, hcanonical⟩ := find_eq_ok_iff.mp h
  obtain ⟨loc, ps, htrace, hshows, hr, hsize, hlinks, hfixed⟩ :=
    canonical_fixed (isAbsolute_of_choose habs hchoose) hcanonical
  refine ⟨p, loc, ps, hchoose, htrace, hshows, hr, hsize, hlinks, fun other => ?_⟩
  have hclean : r.Clean := hr ▸ hshows.clean
  have hresolve : other.resolve r = r := by
    rw [Path.resolve, if_pos hclean.isAbsolute, hclean.normalize_eq]
  have hagain : choose d (some r) other = .ok r := congrArg Except.ok hresolve
  rw [find_of_choose hagain, hfixed]

theorem find_from_result (habs : cwd.isAbsolute = true) (h : find d none cwd = .ok r) :
    find d none r = .ok r ↔
      (r.join ⟨Config.packageName⟩).text.utf8ByteSize ≤ maxPath := by
  obtain ⟨dir, loc, ps, hchoose, htrace, hshows, rfl, hsize, -, -⟩ := find_again habs h
  have hmarked : isMarked d dir = true := List.find?_some (choose_none_eq_ok_iff.mp hchoose)
  obtain ⟨place, hplace, hdir, hmarks⟩ :=
    follow_of_isMarked (isAbsolute_of_choose habs hchoose) hmarked
  have hfollow := Disk.follow_find (by decide) (Disk.trace_eq_ok_iff.mp htrace)
  obtain rfl : place = loc := by simpa using hplace.symm.trans hfollow
  rw [find_self_iff ⟨place, hdir, Location.path?_eq_some_iff.mpr ⟨ps, hshows, rfl⟩⟩]
  exact isMarked_iff_of_marks hshows hsize hdir hmarks

/-- The search takes the nearest of the working directory and its ancestors in which the
description of a package is found, and tells where that is, unless a name on the way has too long
a path. What is told is free of links, and is told again when it is named; from there it is found
again as long as the path of the description is not too long. -/
theorem find_nearest (habs : cwd.isAbsolute = true) (d : Disk) :
    (find d none cwd = .error (.projectNotFound cwd) ↔
      ∀ q ∈ cwd.ancestors, isMarked d q = false) ∧
    (∀ before dir after, cwd.ancestors = before ++ dir :: after →
      (∀ q ∈ before, isMarked d q = false) → isMarked d dir = true →
        ∃ loc, d.follow .find dir = .ok (.found loc) ∧ d.tree.node? loc = some .dir ∧
          ((d.trace dir = .error (.os .nameTooLong) ∧
              find d none cwd = .error (.io dir (.os .nameTooLong))) ∨
            d.trace dir = .ok loc ∧
              ((∃ r, Location.path? loc = some r ∧ find d none cwd = .ok r) ∨
                Location.path? loc = none ∧
                  find d none cwd = .error (.pathNotText (Location.bytes loc))))) ∧
    ∀ explicit r, find d explicit cwd = .ok r →
      r.Clean ∧ (∃ loc, Location.path? loc = some r ∧ d.Unlinked loc) ∧
      (∀ other, find d (some r) other = .ok r) ∧
      (explicit = none → (find d none r = .ok r ↔
        (r.join ⟨Config.packageName⟩).text.utf8ByteSize ≤ maxPath)) := by
  refine ⟨find_eq_notFound_iff, ?_, fun explicit r h => ?_⟩
  · intro before dir after hancestors hbefore hmarked
    have hdirAbs : dir.isAbsolute = true :=
      Path.isAbsolute_of_mem_ancestors habs (by rw [hancestors]; simp)
    obtain ⟨loc, hloc, hdir, -⟩ := follow_of_isMarked hdirAbs hmarked
    refine ⟨loc, hloc, hdir, ?_⟩
    rw [find_of_choose (choose_of_nearest hancestors hbefore hmarked)]
    exact canonical_of_follow hloc
  · obtain ⟨p, loc, ps, -, -, hshows, hr, -, hlinks, hagain⟩ := find_again habs h
    refine ⟨hr ▸ hshows.clean, ⟨loc, Location.path?_eq_some_iff.mpr ⟨ps, hshows, hr⟩, hlinks⟩,
      hagain, ?_⟩
    rintro rfl
    exact find_from_result habs h

/-- A project, and a link to it. -/
def linkedDisk : Disk :=
  let described := FileSystem.empty.edit [] (.write "/p/Cargo.toml".toUTF8 ⟨#[]⟩)
  let inhabited := described.edit [] (.makeDirs "/p/src".toUTF8)
  ⟨inhabited.edit [] (.link "/l".toUTF8 "p".toUTF8), []⟩

theorem find_nearest_sample :
    find linkedDisk none ⟨"/l/src"⟩ = .ok ⟨"/p"⟩ ∧ find linkedDisk none ⟨"/p"⟩ = .ok ⟨"/p"⟩ ∧
      find linkedDisk (some ⟨"/p"⟩) ⟨"/nowhere"⟩ = .ok ⟨"/p"⟩ ∧
      find linkedDisk none ⟨"/"⟩ = .error (.projectNotFound ⟨"/"⟩) := by
  have habs : (Path.mk "/l/src").isAbsolute = true := by decide
  have hancestors : (Path.mk "/l/src").ancestors = [⟨"/l/src"⟩] ++ ⟨"/l"⟩ :: [⟨"/"⟩] := by decide
  have hbefore : ∀ q ∈ [Path.mk "/l/src"], isMarked linkedDisk q = false := by decide +kernel
  have hmarked : isMarked linkedDisk ⟨"/l"⟩ = true := by decide +kernel
  have htrace : linkedDisk.trace ⟨"/l"⟩ = .ok [⟨"p".toUTF8, by decide +kernel⟩] := by
    decide +kernel
  have hpath : Location.path? [⟨"p".toUTF8, by decide +kernel⟩] = some ⟨"/p"⟩ := by decide +kernel
  obtain ⟨-, hnearest, hresult⟩ := find_nearest habs linkedDisk
  have hfind : find linkedDisk none ⟨"/l/src"⟩ = .ok ⟨"/p"⟩ := by
    obtain ⟨loc, -, -, houtcome⟩ := hnearest _ _ _ hancestors hbefore hmarked
    rcases houtcome with ⟨hlong, -⟩ | ⟨hloc, hout⟩
    · rw [htrace] at hlong
      cases hlong
    · obtain rfl := Except.ok.inj (htrace.symm.trans hloc)
      rcases hout with ⟨r, hr, hfind⟩ | ⟨hnone, -⟩
      · rwa [← Option.some.inj (hpath.symm.trans hr)] at hfind
      · rw [hpath] at hnone
        cases hnone
  obtain ⟨-, -, hnamed, hself⟩ := hresult none _ hfind
  have hroot : ∀ q ∈ (Path.mk "/").ancestors, isMarked linkedDisk q = false := by decide +kernel
  exact ⟨hfind, (hself rfl).mpr (by decide), hnamed _,
    (find_nearest (by decide) linkedDisk).1.mpr hroot⟩

section Deep

variable {depth count : Nat}

def deepName : Name :=
  ⟨(String.ofList (List.replicate 226 'a')).toUTF8, by decide +kernel⟩

def linkName : Name := ⟨"k".toUTF8, by decide +kernel⟩

def packageFile : Name := ⟨Config.packageName.toUTF8, by decide +kernel⟩

/-- Nested directories, each of which has a long name and is marked. -/
def deepDisk (depth : Nat) : Disk := ⟨nest deepName linkName packageFile depth, []⟩

def linksPath (count : Nat) : Path := .ofPieces true (List.replicate count ['k'])

theorem nested_deepDisk (depth : Nat) :
    Nested deepName linkName packageFile (deepDisk depth).tree depth :=
  nested_nest (by decide +kernel) (by decide +kernel) (by decide +kernel) depth

theorem size_deepName : deepName.bytes.size = 226 := by decide +kernel

theorem isName_link : ∀ piece ∈ List.replicate count ['k'], Path.IsName piece := by
  intro piece hm
  rw [List.eq_of_mem_replicate hm]
  decide

theorem nul_not_mem_linksPath (count : Nat) : '\x00' ∉ (linksPath count).chars := by
  refine Path.nul_not_mem_ofPieces fun piece hm => ?_
  rw [List.eq_of_mem_replicate hm]
  decide

theorem steps_links (count : Nat) :
    (List.replicate count ['k']).map Path.nameStep = List.replicate count (.enter linkName) := by
  have hstep : Path.nameStep ['k'] = .enter linkName := by decide +kernel
  rw [List.map_replicate, hstep]

theorem follow_links {purpose : Purpose} (hpurpose : purpose = .find ∨ purpose = .trace)
    (hfit : purpose = .trace → Location.size (List.replicate count deepName) ≤ maxPath)
    (hdepth : count ≤ depth) (hlinks : count ≤ maxLinks) :
    (deepDisk depth).follow purpose (linksPath count) =
      .ok (.found (List.replicate count deepName)) := by
  have hclaim : purpose ≠ .claim := by
    rintro rfl
    rcases hpurpose with hp | hp <;> cases hp
  have hshort : linkName.bytes.size ≤ deepName.bytes.size := by decide +kernel
  have hwalk := @Nested.walk deepName linkName packageFile _ depth purpose maxLinks 0 count
    (nested_deepDisk depth) hpurpose (by rwa [Nat.zero_add]) hshort (by rwa [Nat.zero_add]) hlinks
  rw [Nat.zero_add] at hwalk
  rw [Disk.follow_eq_ok_iff, FileSystem.reach_eq_ok_iff, linksPath, Path.route_ofPieces isName_link,
    stepsFor_of_ne_claim hclaim, steps_links]
  exact ⟨nul_not_mem_linksPath count, nofun, hwalk⟩

theorem nameStep_package :
    Path.nameStep Config.packageName.toList = .enter packageFile := by decide +kernel

theorem isMarked_links (hdepth : count < depth) (hlinks : count ≤ maxLinks)
    (hfits : ((linksPath count).join ⟨Config.packageName⟩).text.utf8ByteSize ≤ maxPath) :
    isMarked (deepDisk depth) (linksPath count) = true := by
  have hnested := nested_deepDisk depth
  have hshort : linkName.bytes.size ≤ deepName.bytes.size := by decide +kernel
  have hin : Walk (deepDisk depth).tree .find count [] (List.replicate count (.enter linkName))
      (.found (List.replicate count deepName)) := by
    have hin := @Nested.walk deepName linkName packageFile _ depth .find count 0 count hnested
      (.inl rfl) nofun hshort (by omega) (Nat.le_refl count)
    rwa [Nat.zero_add] at hin
  have hlast : Walk (deepDisk depth).tree .find 0 (List.replicate count deepName)
      [.enter packageFile] (.found (packageFile :: List.replicate count deepName)) :=
    .enter ⟨nofun, hnested.dir count (by omega)⟩ nofun (hnested.mark count hdepth) nofun .stop
  have hall := (hin.append rfl hlast).weaken (Nat.le_trans (Nat.add_zero count).le hlinks)
  refine isMarked_of_walk isName_link (fun piece hm => ?_) ?_ (hnested.mark count hdepth) hfits
  · rw [List.eq_of_mem_replicate hm]
    decide
  · rwa [steps_links, nameStep_package]

theorem shows_deep (count : Nat) :
    Location.Shows (List.replicate count deepName)
      (List.replicate count (List.replicate 226 'a')) := by
  rw [Location.Shows, List.reverse_replicate, List.map_replicate, List.map_replicate, deepName]

theorem size_package (count : Nat) :
    count * 227 + 11 ≤ ((Path.ofPieces true (List.replicate count (List.replicate 226 'a'))).join
      ⟨Config.packageName⟩).text.utf8ByteSize := by
  have hshows := shows_deep count
  have hsteps : (List.replicate count (List.replicate 226 'a') ++
      [Config.packageName.toList]).map Path.nameStep =
        (List.replicate count deepName ++ [packageFile]).map .enter := by
    rw [List.map_append, hshows.steps, List.map_append, List.reverse_replicate, List.map_singleton,
      nameStep_package, List.map_singleton]
  have hsize := Path.size_names_le hsteps
  have hfile : packageFile.bytes.size = 10 := by decide +kernel
  rw [List.reverse_append, List.reverse_singleton, List.singleton_append, List.reverse_replicate,
    Location.size, size_replicate, size_deepName, hfile] at hsize
  rwa [Path.join_ofPieces hshows.isName (by decide)]

/-- A directory whose own path is too long is not told, although it is marked; and one whose own
path is just short enough is told, but not found again from there. -/
theorem find_too_deep :
    isMarked (deepDisk 20) (linksPath 19) = true ∧
      find (deepDisk 20) none (linksPath 19) =
        .error (.io (linksPath 19) (.os .nameTooLong)) ∧
      isMarked (deepDisk 20) (linksPath 18) = true ∧
      ∃ r, find (deepDisk 20) none (linksPath 18) = .ok r ∧ find (deepDisk 20) none r ≠ .ok r := by
  have hmarked : isMarked (deepDisk 20) (linksPath 19) = true :=
    isMarked_links (by decide) (by decide) (by decide)
  have hmarked' : isMarked (deepDisk 20) (linksPath 18) = true :=
    isMarked_links (by decide) (by decide) (by decide)
  refine ⟨hmarked, ?_, hmarked', ?_⟩
  · have hfollow := @follow_links 20 19 .find (.inl rfl) nofun (by decide) (by decide)
    have hlong : maxPath < Location.size (List.replicate 19 deepName) := by
      rw [size_replicate, size_deepName]
      decide
    rw [find_of_choose (choose_of_marked hmarked), canonical,
      Disk.trace_of_long rfl hfollow hlong]
  · have hfit : Location.size (List.replicate 18 deepName) ≤ maxPath := by
      rw [size_replicate, size_deepName]
      decide
    have htrace := Disk.trace_eq_ok_iff.mpr
      (@follow_links 20 18 .trace (.inr rfl) (fun _ => hfit) (by decide) (by decide))
    have hpath := Location.path?_eq_some_iff.mpr ⟨_, shows_deep 18, rfl⟩
    have hcanonical := canonical_eq_ok_iff.mpr ⟨_, htrace, hpath⟩
    refine ⟨_, find_eq_ok_iff.mpr ⟨_, choose_of_marked hmarked', hcanonical⟩, fun hself => ?_⟩
    have hdir := (nested_deepDisk 20).dir 18 (by decide)
    have hsize := size_of_marked ((find_self_iff ⟨_, hdir, hpath⟩).mp hself)
    have hlong : maxPath < 18 * 227 + 11 := by decide
    exact absurd (Nat.le_trans (size_package 18) hsize) (Nat.not_le.mpr hlong)

end Deep

end Project

end WasmBuild
