import WasmBuild.Proofs.Anywhere
import WasmBuild.Proofs.Inheritance
import WasmBuild.Proofs.Within

/-! Directories by the paths that are free of links, and how a project is found among them. From
a directory below it, from itself and when it is named, the same project is found. -/

namespace WasmBuild

theorem Text.fromUTF8?_eq_some_iff {bytes : ByteArray} {s : String} :
    String.fromUTF8? bytes = some s ↔ bytes = s.toUTF8 := by
  rw [String.fromUTF8?]
  split
  · rw [Option.some.injEq, ← String.toByteArray_inj, eq_comm]
    exact eq_comm
  · next h =>
    refine ⟨nofun, fun hs => absurd ?_ h⟩
    rw [hs]
    exact s.isValidUTF8

namespace Name

theorem isLegal_iff {bytes : List UInt8} :
    isLegal bytes = true ↔ bytes ≠ [] ∧ bytes.length ≤ maxSize ∧ 0x2F ∉ bytes ∧ 0 ∉ bytes ∧
      bytes ≠ [0x2E] ∧ bytes ≠ [0x2E, 0x2E] := by
  simp [isLegal, and_assoc]

end Name

namespace Path

variable {piece : Piece} {name : Name}

/-- A name that is text can be a piece of a path. -/
theorem isName_of_bytes (h : name.bytes = (String.ofList piece).toUTF8) :
    IsName piece ∧ nameStep piece = .enter name ∧ '\x00' ∉ piece := by
  have hlegal := name.legal
  have hbytes : name.bytes.data.toList = piece.flatMap String.utf8EncodeChar := by
    rw [h, Text.toList_toUTF8, String.toList_ofList]
  have hmem : ∀ c ∈ piece, ∀ b ∈ String.utf8EncodeChar c, b ∈ name.bytes.data.toList := by
    intro c hc b hb
    rw [hbytes]
    exact List.mem_flatMap.mpr ⟨c, hc, hb⟩
  obtain ⟨hne, -, hslash, hnul, hdot, hdots⟩ := Name.isLegal_iff.mp hlegal
  refine ⟨⟨?_, ?_, ?_⟩, ?_, ?_⟩
  · rw [isIdle, Bool.or_eq_false_iff, beq_eq_false_iff_ne, beq_eq_false_iff_ne]
    exact ⟨fun e => hne (by rw [hbytes, e]; rfl), fun e => hdot (by rw [hbytes, e]; rfl)⟩
  · exact fun e => hdots (by rw [hbytes, e]; rfl)
  · exact fun hm => hslash (hmem '/' hm _ List.mem_cons_self)
  · rw [nameStep, ← h, Name.ofBytes?, dif_pos hlegal]
    rfl
  · exact fun hm => hnul (hmem '\x00' hm _ List.mem_cons_self)

theorem eq_slash_of_mem_intercalate {ps : List Piece} {c : Char}
    (h : c ∈ List.intercalate ['/'] ps) : c = '/' ∨ ∃ piece ∈ ps, c ∈ piece := by
  induction ps with
  | nil => cases h
  | cons piece rest ih =>
    by_cases hrest : rest = []
    · subst hrest
      rw [List.intercalate_singleton] at h
      exact .inr ⟨piece, List.mem_cons_self, h⟩
    · rw [List.intercalate_cons_of_ne_nil hrest, List.mem_append, List.mem_append] at h
      rcases h with (hm | hm) | hm
      · exact .inr ⟨piece, List.mem_cons_self, hm⟩
      · exact .inl (List.mem_singleton.mp hm)
      · rcases ih hm with hc | ⟨other, hother, hc⟩
        · exact .inl hc
        · exact .inr ⟨other, List.mem_cons_of_mem piece hother, hc⟩

theorem nul_not_mem_ofPieces {ps : List Piece} (h : ∀ piece ∈ ps, '\x00' ∉ piece) :
    '\x00' ∉ (ofPieces true ps).chars := by
  intro hm
  rw [chars_ofPieces, if_pos rfl, List.singleton_append, List.mem_cons] at hm
  rcases hm with hm | hm
  · exact absurd hm (by decide)
  · rcases eq_slash_of_mem_intercalate hm with hc | ⟨piece, hpiece, hc⟩
    · exact absurd hc (by decide)
    · exact h piece hpiece hc

theorem within_ofPieces_iff {inner outer : List Piece} (hinner : ∀ piece ∈ inner, IsName piece)
    (houter : ∀ piece ∈ outer, IsName piece) :
    (ofPieces true inner).Within (ofPieces true outer) ↔
      ∃ more, inner = outer ++ more ∧ more ≠ [] := by
  have hi : (ofPieces true inner).Clean := ⟨inner, rfl, hinner⟩
  have ho : (ofPieces true outer).Clean := ⟨outer, rfl, houter⟩
  rw [Within, hi.isAbsolute, ho.isAbsolute, hi.normalize_eq, ho.normalize_eq, names_clean hinner,
    names_clean houter]
  constructor
  · rintro ⟨-, ⟨more, rfl⟩, hne⟩
    exact ⟨more, rfl, by rintro rfl; exact hne (List.append_nil outer).symm⟩
  · rintro ⟨more, rfl, hne⟩
    exact ⟨rfl, List.prefix_append outer more, fun h => hne (List.self_eq_append_right.mp h)⟩

/-- The nearest ancestor that is marked, when all on the way to it are not. -/
theorem find?_ancestors {base more : List Piece} {marked : Path → Bool}
    (hnames : ∀ piece ∈ base ++ more, IsName piece)
    (hbase : marked (ofPieces true base) = true)
    (hmore : ∀ init, init <+: more → init ≠ [] →
      marked (ofPieces true (base ++ init)) = false) :
    (ofPieces true (base ++ more)).ancestors.find? marked =
      some (ofPieces true base) := by
  -- One ancestor is passed with each name that is taken away at the inner end.
  induction more using List.reverseRecOn with
  | nil =>
    rw [List.append_nil, ancestors, List.find?_cons, hbase]
  | append_singleton init last ih =>
    have hself := hmore (init ++ [last]) (List.prefix_refl _) (List.concat_ne_nil last init)
    rw [← List.append_assoc] at hnames hself ⊢
    have hparent := parent_ofPieces hnames
    have hinit := ih (fun piece hm => hnames piece (List.mem_append_left _ hm))
      fun front hfront hne => hmore front (hfront.trans (List.prefix_append _ _)) hne
    rw [ancestors, List.find?_cons, hself, ← ancestors_of_parent hparent]
    exact hinit

end Path

namespace Location

/-- The names on the way to a place are these pieces of text. -/
def Shows (loc : Location) (ps : List Path.Piece) : Prop :=
  loc.reverse.map Name.bytes = ps.map fun piece => (String.ofList piece).toUTF8

variable {loc : Location} {ps qs : List Path.Piece}

theorem mapM_fromUTF8?_eq_some_iff {names : List Name} {texts : List String} :
    names.mapM (fun name => String.fromUTF8? name.bytes) = some texts ↔
      names.map Name.bytes = texts.map String.toUTF8 := by
  induction names generalizing texts with
  | nil => cases texts <;> simp
  | cons name rest ih =>
    cases texts with
    | nil => simp [List.mapM_cons, Option.bind_eq_some_iff]
    | cons text more =>
      simp [List.mapM_cons, Option.bind_eq_some_iff, Text.fromUTF8?_eq_some_iff, ih]

theorem path?_eq_some_iff {p : Path} :
    path? loc = some p ↔ ∃ ps, loc.Shows ps ∧ p = Path.ofPieces true ps := by
  rw [path?, Option.map_eq_some_iff]
  simp only [mapM_fromUTF8?_eq_some_iff, Shows]
  constructor
  · rintro ⟨texts, htexts, rfl⟩
    refine ⟨texts.map String.toList, ?_, rfl⟩
    rw [htexts, List.map_map]
    simp [Function.comp_def]
  · rintro ⟨ps, hps, rfl⟩
    refine ⟨ps.map String.ofList, ?_, ?_⟩
    · rw [hps, List.map_map]
      rfl
    · simp [Function.comp_def]

namespace Shows

theorem of_mem (h : loc.Shows ps) {piece : Path.Piece} (hm : piece ∈ ps) :
    ∃ name : Name, name.bytes = (String.ofList piece).toUTF8 := by
  have hbytes : (String.ofList piece).toUTF8 ∈ loc.reverse.map Name.bytes := by
    rw [h]
    exact List.mem_map_of_mem hm
  obtain ⟨name, -, hname⟩ := List.mem_map.mp hbytes
  exact ⟨name, hname⟩

theorem isName (h : loc.Shows ps) : ∀ piece ∈ ps, Path.IsName piece := by
  intro piece hm
  obtain ⟨name, hname⟩ := h.of_mem hm
  exact (Path.isName_of_bytes hname).1

theorem nul (h : loc.Shows ps) : ∀ piece ∈ ps, '\x00' ∉ piece := by
  intro piece hm
  obtain ⟨name, hname⟩ := h.of_mem hm
  exact (Path.isName_of_bytes hname).2.2

theorem clean (h : loc.Shows ps) : (Path.ofPieces true ps).Clean := ⟨ps, rfl, h.isName⟩

theorem steps (h : loc.Shows ps) : ps.map Path.nameStep = loc.reverse.map .enter := by
  unfold Shows at h
  generalize loc.reverse = names at h
  induction ps generalizing names with
  | nil =>
    rw [List.map_nil, List.map_eq_nil_iff] at h
    rw [h]
    rfl
  | cons piece rest ih =>
    obtain ⟨name, more, rfl, hname, hmore⟩ := List.map_eq_cons_iff.mp h
    rw [List.map_cons, List.map_cons, (Path.isName_of_bytes hname).2.1, ih more hmore]

theorem spells (h : loc.Shows ps)
    (hsize : (Path.ofPieces true ps).text.utf8ByteSize ≤ FileSystem.maxPath) :
    (Path.ofPieces true ps).Spells loc := by
  refine ⟨h.clean, Path.nul_not_mem_ofPieces h.nul, hsize, ?_⟩
  rw [Path.route_ofPieces h.isName, h.steps]

/-- The first of the pieces show a place further out. -/
theorem outer (h : loc.Shows (ps ++ qs)) :
    ∃ inner outer, loc = inner ++ outer ∧ outer.Shows ps := by
  obtain ⟨front, back, hloc, hfront, -⟩ :=
    List.map_eq_append_iff.mp (h.trans (List.map_append ..))
  refine ⟨back.reverse, front.reverse, ?_, ?_⟩
  · rw [← List.reverse_append, ← hloc, List.reverse_reverse]
  · rw [Shows, List.reverse_reverse, hfront]

end Shows

end Location

/-- The path is that of a directory, absolute and free of links. -/
def Disk.IsCanonicalDir (d : Disk) (p : Path) : Prop :=
  ∃ loc, d.tree.node? loc = some .dir ∧ Location.path? loc = some p

namespace Disk.IsCanonicalDir

variable {d : Disk} {p : Path} {ps qs : List Path.Piece}

theorem shows (h : d.IsCanonicalDir p) :
    ∃ loc ps, d.tree.node? loc = some .dir ∧ loc.Shows ps ∧ p = Path.ofPieces true ps := by
  obtain ⟨loc, hdir, hpath⟩ := h
  obtain ⟨ps, hps, hp⟩ := Location.path?_eq_some_iff.mp hpath
  exact ⟨loc, ps, hdir, hps, hp⟩

theorem clean (h : d.IsCanonicalDir p) : p.Clean := by
  obtain ⟨loc, ps, -, hps, rfl⟩ := h.shows
  exact hps.clean

/-- What stands on the way to a directory is one. -/
theorem outer (h : d.IsCanonicalDir (Path.ofPieces true (ps ++ qs)))
    (hnames : ∀ piece ∈ ps ++ qs, Path.IsName piece) :
    d.IsCanonicalDir (Path.ofPieces true ps) := by
  obtain ⟨loc, all, hdir, hall, hp⟩ := h.shows
  obtain rfl : all = ps ++ qs := by
    rw [← Path.names_clean hall.isName, ← hp, Path.names_clean hnames]
  obtain ⟨inner, outer, rfl, houter⟩ := hall.outer
  refine ⟨outer, ?_, Location.path?_eq_some_iff.mpr ⟨ps, houter, rfl⟩⟩
  by_cases hinner : inner = []
  · rwa [hinner] at hdir
  · exact FileSystem.node?_outer hinner (by rw [hdir]; rfl)

end Disk.IsCanonicalDir

namespace Project

variable {d : Disk} {p project c : Path}

theorem size_of_isMarked (hclean : p.Clean) (h : isMarked d p = true) :
    p.text.utf8ByteSize ≤ FileSystem.maxPath := by
  obtain ⟨content, hread⟩ := Disk.isFile_iff.mp h
  obtain ⟨loc, hloc, -⟩ := Disk.read_eq_ok_iff.mp hread
  obtain ⟨hsize, -⟩ := Disk.locate_eq_ok_iff.mp hloc
  obtain ⟨ps, rfl, hps⟩ := hclean
  rw [Path.join_ofPieces hps (by decide)] at hsize
  exact Nat.le_trans (Path.utf8ByteSize_le (Path.chars_initial _)) hsize

/-- A marked directory by its canonical path is found as it is. -/
theorem canonical_of_isMarked (h : d.IsCanonicalDir p) (hmarked : isMarked d p = true) :
    canonical d p = .ok p := by
  have hsize := size_of_isMarked h.clean hmarked
  obtain ⟨loc, ps, hdir, hps, rfl⟩ := h.shows
  have htrace : d.trace (Path.ofPieces true ps) = .ok loc :=
    Disk.trace_spells (hps.spells hsize) hdir Node.isSolid_dir
  have hpath : Location.path? loc = some (Path.ofPieces true ps) :=
    Location.path?_eq_some_iff.mpr ⟨ps, hps, rfl⟩
  rw [canonical, htrace]
  dsimp only
  rw [hpath]

/-- From itself, and from anywhere when it is named, a marked directory is found. -/
theorem find_self (h : d.IsCanonicalDir project) (hmarked : isMarked d project = true) :
    find d none project = .ok project := by
  have hchoose : choose d none project = .ok project := by
    rw [choose_none, Path.ancestors, List.find?_cons, hmarked]
  rw [find, hchoose]
  exact canonical_of_isMarked h hmarked

theorem find_named (h : d.IsCanonicalDir project) (hmarked : isMarked d project = true)
    (cwd : Path) : find d (some project) cwd = .ok project := by
  have hresolve : cwd.resolve project = project := by
    rw [Path.resolve, if_pos h.clean.isAbsolute, h.clean.normalize_eq]
  have hchoose : choose d (some project) cwd = .ok project := congrArg Except.ok hresolve
  rw [find, hchoose]
  exact canonical_of_isMarked h hmarked

/-- From a directory below it a marked directory is found, when none on the way is marked. -/
theorem find_below (h : d.IsCanonicalDir project) (hmarked : isMarked d project = true)
    (hc : d.IsCanonicalDir c) (hbelow : c.Within project) (hunmarked : isMarked d c = false)
    (hbetween : ∀ q, d.IsCanonicalDir q → c.Within q → q.Within project →
      isMarked d q = false) :
    find d none c = .ok project := by
  obtain ⟨base, rfl, hbase⟩ := h.clean
  obtain ⟨all, rfl, hall⟩ := hc.clean
  obtain ⟨more, rfl, hne⟩ := Path.within_ofPieces_iff hall hbase |>.mp hbelow
  have hfind : (Path.ofPieces true (base ++ more)).ancestors.find? (isMarked d) =
      some (Path.ofPieces true base) := by
    refine Path.find?_ancestors hall hmarked fun init hinit hinitne => ?_
    obtain ⟨rest, rfl⟩ := hinit
    by_cases hrest : rest = []
    · rwa [hrest, List.append_nil] at hunmarked
    rw [← List.append_assoc] at hall hc hbetween
    have hinit : ∀ piece ∈ base ++ init, Path.IsName piece :=
      fun piece hm => hall piece (List.mem_append_left rest hm)
    have hwithin := (Path.within_ofPieces_iff hall hinit).mpr ⟨rest, rfl, hrest⟩
    have hover := (Path.within_ofPieces_iff hinit hbase).mpr ⟨init, rfl, hinitne⟩
    exact hbetween _ (hc.outer hall) hwithin hover
  have hchoose : choose d none (Path.ofPieces true (base ++ more)) =
      .ok (Path.ofPieces true base) := by
    rw [choose_none, hfind]
  rw [find, hchoose]
  exact canonical_of_isMarked h hmarked

end Project

end WasmBuild
