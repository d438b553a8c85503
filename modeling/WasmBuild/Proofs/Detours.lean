import Mathlib.Data.List.Flatten
import WasmBuild.Proofs.Components
import WasmBuild.Proofs.Discovery
import WasmBuild.Proofs.NormalForm

/-! What the lexical clean-up keeps. Where no symbolic link is met on the way, a path leads to the
same place without its detours, and its normal form is the path of that place. -/

namespace WasmBuild

namespace FileSystem

def isLink (fs : FileSystem) (loc : Location) : Bool :=
  match fs.node? loc with
  | some (.link _) => true
  | _ => false

/-- The places that steps enter by name, as long as none of them is a link. -/
def entered : Location → List Step → List Location
  | _, [] => []
  | loc, .up :: rest => entered loc.tail rest
  | loc, .enter name :: rest => (name :: loc) :: entered (name :: loc) rest
  | loc, _ :: rest => entered loc rest

/-- No symbolic link is met along steps that are taken from a place. -/
def Clear (fs : FileSystem) (loc : Location) (steps : List Step) : Prop :=
  ∀ place ∈ entered loc steps, fs.isLink place = false

instance (fs : FileSystem) (loc : Location) (steps : List Step) :
    Decidable (fs.Clear loc steps) :=
  inferInstanceAs (Decidable (∀ place ∈ entered loc steps, fs.isLink place = false))

section Walks

variable {fs : FileSystem} {links : Nat} {loc : Location} {front back detour steps : List Step}
  {spot : Spot}

theorem isLink_eq_false_iff :
    fs.isLink loc = false ↔ ∀ target, fs.node? loc ≠ some (.link target) := by
  rw [isLink]
  cases fs.node? loc with
  | none => simp
  | some node => cases node <;> simp

theorem isLink_of_dir (h : fs.node? loc = some .dir) : fs.isLink loc = false := by
  rw [isLink, h]

theorem clear_enter {name : Name} :
    fs.Clear loc (.enter name :: steps) ↔
      fs.isLink (name :: loc) = false ∧ fs.Clear (name :: loc) steps := List.forall_mem_cons

theorem Walk.straight (h : Walk fs .find links loc steps spot) (hclear : fs.Clear loc steps) :
    Walk fs .find 0 loc steps spot := by
  induction h with
  | stop => exact .stop
  | idle hstep hallows _ ih =>
    rcases hstep with rfl | rfl
    · exact .idle (.inl rfl) hallows (ih hclear)
    · exact .idle (.inr rfl) hallows (ih hclear)
  | up hallows _ ih => exact .up hallows (ih hclear)
  | enter hallows hslash hnode hlink _ ih =>
    exact .enter hallows hslash hnode hlink (ih (clear_enter.mp hclear).2)
  | vacant hallows hnode => exact .vacant hallows hnode
  | obstacle _ hclaim => cases hclaim
  | follow _ _ hnode =>
    exact absurd hnode (isLink_eq_false_iff.mp (clear_enter.mp hclear).1 _)

theorem Walk.clear (h : Walk fs .find links loc steps spot) (hlinks : links = 0) :
    fs.Clear loc steps := by
  induction h with
  | stop => exact List.forall_mem_nil _
  | idle hstep _ _ ih => rcases hstep with rfl | rfl <;> exact ih hlinks
  | up _ _ ih => exact ih hlinks
  | enter _ _ hnode hlink _ ih =>
    refine clear_enter.mpr ⟨isLink_eq_false_iff.mpr fun target htarget => ?_, ih hlinks⟩
    exact hlink target (Option.some.inj (hnode.symm.trans htarget))
  | vacant _ hnode =>
    refine clear_enter.mpr ⟨isLink_eq_false_iff.mpr fun target htarget => ?_, List.forall_mem_nil _⟩
    cases hnode.symm.trans htarget
  | obstacle _ hclaim => cases hclaim
  | follow => cases hlinks

/-- The walks that may follow no link are those that meet none. -/
theorem walk_zero_iff :
    Walk fs .find 0 loc steps spot ↔
      (∃ links, Walk fs .find links loc steps spot) ∧ fs.Clear loc steps :=
  ⟨fun h => ⟨⟨0, h⟩, h.clear rfl⟩, fun ⟨⟨_, h⟩, hclear⟩ => h.straight hclear⟩

/-- Steps that come back to where they began may be left out. -/
theorem Walk.skip (h : Walk fs .find 0 loc (front ++ (detour ++ back)) spot) (hne : detour ≠ [])
    (hback : ∀ mid, Walk fs .find 0 mid (detour ++ back) spot → Walk fs .find 0 mid back spot) :
    Walk fs .find 0 loc (front ++ back) spot := by
  obtain ⟨mid, fewer, hfront, -, hfewer, hrest⟩ := h.passes rfl (by simp [hne])
  obtain rfl := Nat.le_zero.mp hfewer
  exact hfront.append rfl (hback mid hrest)

theorem Walk.of_here (h : Walk fs .find 0 loc (.here :: back) spot) :
    Walk fs .find 0 loc back spot := by
  cases h with
  | idle _ _ hrest => exact hrest

theorem Walk.of_up (h : Walk fs .find 0 loc (.up :: back) spot) :
    Walk fs .find 0 loc.tail back spot := by
  cases h with
  | idle hidle => rcases hidle with hidle | hidle <;> cases hidle
  | up _ hrest => exact hrest

/-- A piece that is found without a link is a name that was entered. -/
theorem Walk.of_nameStep {place : Location} {piece : Path.Piece}
    (h : Walk fs .find 0 loc (Path.nameStep piece :: back) (.found place)) :
    ∃ name, Path.nameStep piece = .enter name ∧
      Walk fs .find 0 (name :: loc) back (.found place) := by
  rcases Path.nameStep_cases piece with hstep | ⟨name, hstep⟩
  · rw [hstep] at h
    cases h with
    | idle hidle => rcases hidle with hidle | hidle <;> cases hidle
  · rw [hstep] at h
    cases h with
    | idle hidle => rcases hidle with hidle | hidle <;> cases hidle
    | enter _ _ _ _ hrest => exact ⟨name, hstep, hrest⟩
    | obstacle _ hclaim => cases hclaim

/-- The directories on the way to a directory are no links. -/
theorem clear_below {names : List Name} (hdir : fs.node? (names.reverse ++ loc) = some .dir)
    (h : fs.Clear (names.reverse ++ loc) steps) :
    fs.Clear loc (names.map .enter ++ steps) := by
  induction names generalizing loc with
  | nil => exact h
  | cons name rest ih =>
    rw [List.reverse_cons, List.append_assoc, List.singleton_append] at hdir h
    have hfirst : fs.node? (name :: loc) = some .dir := by
      by_cases hrest : rest.reverse = []
      · rwa [hrest] at hdir
      · exact node?_outer hrest (by rw [hdir]; rfl)
    exact clear_enter.mpr ⟨isLink_of_dir hfirst, ih hdir h⟩

end Walks

end FileSystem

namespace Path

open FileSystem

section Steps

variable {fs : FileSystem} {ps qs : List Piece} {place : Location}

theorem isIdle_cases {piece : Piece} (h : isIdle piece = true) : piece = [] ∨ piece = ['.'] := by
  simpa [isIdle] using h

theorem step?_of_not_idle {piece : Piece} (h : isIdle piece = false) (hup : piece ≠ up) :
    step? piece = some (nameStep piece) := by
  simp only [isIdle, Bool.or_eq_false_iff, beq_eq_false_iff_ne] at h
  rw [step?, Route.step?, if_neg h.1, if_neg h.2]
  exact if_neg hup

/-- A step towards the normal form keeps where a walk from the root ends that follows no link. -/
theorem Shortens.walk (h : Shortens ps qs)
    (hwalk : Walk fs .find 0 [] (ps.filterMap step?) (.found place)) :
    Walk fs .find 0 [] (qs.filterMap step?) (.found place) := by
  cases h with
  | idle before after hidle =>
    rw [List.filterMap_append] at hwalk ⊢
    rcases isIdle_cases hidle with rfl | rfl
    · rwa [List.filterMap_cons_none (by rfl)] at hwalk
    · rw [List.filterMap_cons_some (by rfl), ← List.singleton_append] at hwalk
      exact hwalk.skip (List.cons_ne_nil _ _) fun _ hmid => hmid.of_here
  | @back name before after hidle hup =>
    rw [List.filterMap_append] at hwalk ⊢
    have hdetour : (name :: up :: after).filterMap step? =
        [nameStep name, .up] ++ after.filterMap step? := by
      rw [List.filterMap_cons_some (step?_of_not_idle hidle hup), List.filterMap_cons_some (by rfl)]
      rfl
    rw [hdetour] at hwalk
    -- the step up leaves the place that the name has entered
    refine hwalk.skip (List.cons_ne_nil _ _) fun mid hmid => ?_
    obtain ⟨_, _, hrest⟩ := hmid.of_nameStep
    exact hrest.of_up
  | root after =>
    rw [List.filterMap_cons_some (by rfl)] at hwalk
    exact hwalk.of_up

theorem walk_of_reached (h : Relation.ReflTransGen Shortens ps qs)
    (hwalk : Walk fs .find 0 [] (ps.filterMap step?) (.found place)) :
    Walk fs .find 0 [] (qs.filterMap step?) (.found place) := by
  induction h with
  | refl => exact hwalk
  | tail _ hlast ih => exact hlast.walk ih

end Steps

section Sizes

variable {ps qs : List Piece}

theorem Shortens.sublist (h : Shortens ps qs) : qs.Sublist ps := by
  cases h with
  | idle before after => exact (List.sublist_cons_self _ _).append_left before
  | back before after =>
    exact ((List.sublist_cons_self _ _).trans (List.sublist_cons_self _ _)).append_left before
  | root => exact List.sublist_cons_self _ _

theorem sublist_of_reached (h : Relation.ReflTransGen Shortens ps qs) : qs.Sublist ps := by
  induction h with
  | refl => exact List.Sublist.refl _
  | tail _ hlast ih => exact hlast.sublist.trans ih

theorem chars_ofPieces_flatMap (hne : ps ≠ []) :
    (ofPieces true ps).chars = ps.flatMap ('/' :: ·) := by
  rw [chars_ofPieces, if_pos rfl, List.singleton_append]
  induction ps with
  | nil => exact absurd rfl hne
  | cons piece rest ih =>
    by_cases hrest : rest = []
    · simp [hrest]
    · rw [List.intercalate_cons_of_ne_nil hrest, List.append_assoc, List.singleton_append,
        ih hrest, List.flatMap_cons, List.cons_append]

theorem chars_sublist (h : qs.Sublist ps) :
    (ofPieces true qs).chars.Sublist (ofPieces true ps).chars := by
  by_cases hqs : qs = []
  · subst hqs
    rw [chars_ofPieces, chars_ofPieces]
    exact (List.nil_sublist _).cons_cons '/'
  · have hps : ps ≠ [] := fun hnil => hqs (List.sublist_nil.mp (hnil ▸ h))
    rw [chars_ofPieces_flatMap hqs, chars_ofPieces_flatMap hps]
    exact h.flatMap _

/-- The clean-up of an absolute path makes no text longer. -/
theorem utf8ByteSize_normalize_le {p : Path} (h : p.isAbsolute = true) :
    p.normalize.text.utf8ByteSize ≤ p.text.utf8ByteSize := by
  obtain ⟨hclean, hreached⟩ := (isNormalForm_iff h).mpr rfl
  have hpieces : ofPieces true p.pieces = p := by rw [← h, ofPieces_pieces]
  have hchars := chars_sublist (sublist_of_reached hreached)
  rw [hclean.ofPieces_names, hpieces] at hchars
  have hbytes := (hchars.flatMap String.utf8EncodeChar).length_le
  rwa [chars, chars, ← Text.toList_toUTF8, ← Text.toList_toUTF8] at hbytes

end Sizes

theorem bytes_of_walk {fs : FileSystem} {ps : List Piece} {start loc : Location}
    (hwalk : Walk fs .find 0 start (ps.map nameStep) (.found loc)) :
    loc.reverse.map Name.bytes =
      start.reverse.map Name.bytes ++ ps.map fun piece => (String.ofList piece).toUTF8 := by
  induction ps generalizing start with
  | nil =>
    cases hwalk
    exact (List.append_nil _).symm
  | cons piece rest ih =>
    rw [List.map_cons] at hwalk
    obtain ⟨name, hstep, hrest⟩ := hwalk.of_nameStep
    rw [ih hrest, List.reverse_cons, List.map_append, List.append_assoc, List.map_singleton,
      bytes_of_nameStep hstep, List.map_cons, List.singleton_append]

end Path

namespace Disk

open FileSystem

/-- Both paths lead to the place, and where the first one can be looked up or told, so can the
second. -/
structure LeadAlike (d : Disk) (p q : Path) (loc : Location) : Prop where
  first : d.follow .find p = .ok (.found loc)
  second : d.follow .find q = .ok (.found loc)
  locate : d.locate p = .ok loc → d.locate q = .ok loc
  trace : d.trace p = .ok loc → d.trace q = .ok loc

section Normal

variable {d : Disk} {p base : Path} {loc place : Location}

/-- The normal form of a path on which no link is met is the path of the place to which it leads. -/
theorem shows_of_clear (habs : p.isAbsolute = true) (h : d.follow .find p = .ok (.found loc))
    (hclear : d.tree.Clear [] p.steps) :
    loc.Shows p.normalize.names ∧
      Walk d.tree .find 0 [] (p.normalize.names.map Path.nameStep) (.found loc) := by
  obtain ⟨hclean, hreached⟩ := (Path.isNormalForm_iff habs).mpr rfl
  have hwalk := walk_of_follow h
  rw [Route.start, if_pos ((Route.absolute_ofPath p).trans habs)] at hwalk
  have hstraight := walk_zero_iff.mpr ⟨⟨maxLinks, hwalk⟩, hclear⟩
  rw [Path.steps_eq] at hstraight
  have hnormal := Path.walk_of_reached hreached hstraight
  rw [Path.filterMap_step?_names hclean.isName] at hnormal
  have hbytes := Path.bytes_of_walk hnormal
  rw [List.reverse_nil, List.map_nil, List.nil_append] at hbytes
  exact ⟨hbytes, hnormal⟩

theorem follow_of_shows {ps : List Path.Piece} (hshows : loc.Shows ps)
    (hwalk : Walk d.tree .find 0 [] (ps.map Path.nameStep) (.found loc)) :
    d.follow .find (Path.ofPieces true ps) = .ok (.found loc) := by
  rw [follow_eq_ok_iff, FileSystem.reach_eq_ok_iff, Path.route_ofPieces hshows.isName,
    stepsFor_of_ne_claim (by decide), Route.start, if_pos rfl]
  exact ⟨Path.nul_not_mem_ofPieces hshows.nul, fun h => Bool.noConfusion h.1,
    hwalk.weaken (Nat.zero_le maxLinks)⟩

theorem leadAlike_normalize (habs : p.isAbsolute = true)
    (h : d.follow .find p = .ok (.found loc)) (hclear : d.tree.Clear [] p.steps) :
    d.LeadAlike p p.normalize loc ∧ Location.path? loc = some p.normalize := by
  obtain ⟨hshows, hnormal⟩ := shows_of_clear habs h hclear
  have htext : Path.ofPieces true p.normalize.names = p.normalize :=
    (Path.clean_normalize habs).ofPieces_names
  have hsecond := follow_of_shows hshows hnormal
  refine ⟨⟨h, htext ▸ hsecond, fun hlocate => ?_, fun htrace => ?_⟩, ?_⟩
  · obtain ⟨hsize, -⟩ := locate_eq_ok_iff.mp hlocate
    have hshorter := Path.utf8ByteSize_normalize_le habs
    exact locate_eq_ok_iff.mpr ⟨Nat.le_trans hshorter hsize, htext ▸ hsecond⟩
  · have hsize := size_of_trace habs htrace
    have hfits : (Path.ofPieces true p.normalize.names).text.utf8ByteSize ≤ maxPath :=
      Nat.le_trans (Location.utf8ByteSize_le hshows) (Nat.max_le.mpr ⟨by decide, hsize⟩)
    obtain ⟨node, hnode, hsolid⟩ := node_of_follow (by decide) h
    rw [← htext]
    exact trace_spells (hshows.spells hfits) hnode hsolid
  · exact Location.path?_eq_some_iff.mpr ⟨_, hshows, htext.symm⟩

/-- A path that meets no link meets none behind the path of the directory it is taken from. -/
theorem clear_join (hdir : d.tree.node? place = some .dir)
    (hbase : Location.path? place = some base)
    (hclear : d.tree.Clear ((Route.ofPath p).start place) p.steps) :
    d.tree.Clear [] (base.join p).steps := by
  obtain ⟨ps, hshows, rfl⟩ := Location.path?_eq_some_iff.mp hbase
  rw [Route.start, Route.absolute_ofPath] at hclear
  cases hp : p.isAbsolute with
  | true =>
    rw [Path.join_of_isAbsolute hp]
    rwa [if_pos hp] at hclear
  | false =>
    rw [if_neg (by simp [hp])] at hclear
    have hsteps : (Path.ofPieces true ps).steps = place.reverse.map .enter := by
      rw [Path.steps_ofPieces (Path.written_of_names hshows.isName),
        Path.filterMap_step?_names hshows.isName, hshows.steps]
    rw [Path.steps_join hp, hsteps]
    refine clear_below ?_ ?_
    · simpa using hdir
    · simpa using hclear

end Normal

/-- The clean-up of an absolute path on which no symbolic link is met keeps where the path leads,
and gives the path of that place. A path that meets no link from a directory is resolved against the
path of the directory to where both joined lead. -/
theorem normalize_keeps_place (d : Disk) :
    (∀ p loc, p.isAbsolute = true → d.follow .find p = .ok (.found loc) →
      d.tree.Clear [] p.steps →
      d.LeadAlike p p.normalize loc ∧ Location.path? loc = some p.normalize) ∧
    ∀ place base p loc, d.tree.node? place = some .dir → Location.path? place = some base →
      d.follow .find (base.join p) = .ok (.found loc) →
      d.tree.Clear ((Route.ofPath p).start place) p.steps →
      d.LeadAlike (base.join p) (base.resolve p) loc := by
  refine ⟨fun p loc habs h hclear => leadAlike_normalize habs h hclear, ?_⟩
  intro place base p loc hdir hbase h hclear
  have hcanonical : d.IsCanonicalDir base := ⟨place, hdir, hbase⟩
  have habs : (base.join p).isAbsolute = true := Path.isAbsolute_join hcanonical.clean.isAbsolute
  rw [Path.resolve_eq_normalize_join]
  exact (leadAlike_normalize habs h (clear_join hdir hbase hclear)).1

/-- A directory with a file and a directory in it. -/
def plainDisk : Disk :=
  let tree := FileSystem.empty.edit [] (.write "/a/f".toUTF8 ⟨#[]⟩)
  ⟨tree.edit [] (.makeDirs "/a/b".toUTF8), []⟩

theorem normalize_keeps_place_sample :
    plainDisk.LeadAlike ⟨"/..//a/b/.././f"⟩ ⟨"/a/f"⟩ (Location.ofPath ⟨"/a/f"⟩) ∧
      plainDisk.LeadAlike ⟨"/a/b/../..//a/b/./"⟩ ⟨"/a/b"⟩ (Location.ofPath ⟨"/a/b"⟩) := by
  let dir := Location.ofPath ⟨"/a/b"⟩
  obtain ⟨hclean, hresolve⟩ := normalize_keeps_place plainDisk
  have hfile : plainDisk.follow .find ⟨"/..//a/b/.././f"⟩ =
      .ok (.found (Location.ofPath ⟨"/a/f"⟩)) := by decide +kernel
  have hfileClear : plainDisk.tree.Clear [] (Path.mk "/..//a/b/.././f").steps := by decide +kernel
  have hnormal : (Path.mk "/..//a/b/.././f").normalize = ⟨"/a/f"⟩ := by decide
  have hdir : plainDisk.tree.node? dir = some .dir := by decide +kernel
  have hbase : Location.path? dir = some ⟨"/a/b"⟩ := by decide +kernel
  have hjoin : (Path.mk "/a/b").join ⟨"../..//a/b/./"⟩ = ⟨"/a/b/../..//a/b/./"⟩ := by decide
  have hfound : plainDisk.follow .find ((Path.mk "/a/b").join ⟨"../..//a/b/./"⟩) =
      .ok (.found dir) := by decide +kernel
  have hclear : plainDisk.tree.Clear ((Route.ofPath ⟨"../..//a/b/./"⟩).start dir)
      (Path.mk "../..//a/b/./").steps := by decide +kernel
  have hresolved : (Path.mk "/a/b").resolve ⟨"../..//a/b/./"⟩ = ⟨"/a/b"⟩ := by decide
  have hfirst := (hclean _ _ (by decide) hfile hfileClear).1
  have hsecond := hresolve _ _ _ _ hdir hbase hfound hclear
  rw [hnormal] at hfirst
  rw [hjoin, hresolved] at hsecond
  exact ⟨hfirst, hsecond⟩

end Disk

end WasmBuild
