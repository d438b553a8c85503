import WasmBuild.Proofs.Canonical
import WasmBuild.Proofs.NormalForm

/-! A manifest at its usual place, and the same one asked for by its path. Both are loaded alike,
unless the file is missing: then the project does without, and what was asked for is an error. -/

namespace WasmBuild

namespace Disk

variable {d : Disk} {p : Path} {loc : Location} {name : Name}

/-- What is found is not missing, whether it can be read or not. -/
theorem readText_ne_noEntry (h : d.locate p = .ok loc) : d.readText p ≠ .error (.os .noEntry) := by
  have hdirectory : Errno.isDirectory ≠ .noEntry := by decide
  rw [readText, read, h]
  cases hnode : d.tree.node? loc with
  | none => simpa [hnode] using hdirectory
  | some node =>
    cases node with
    | dir => simpa [hnode] using hdirectory
    | link target => simpa [hnode] using hdirectory
    | file content =>
      cases htext : String.fromUTF8? content <;> simp [hnode, htext]

/-- Unless a link has its name, a file is missing just when nothing has. -/
theorem readText_spells_noEntry_iff (h : p.Spells (name :: loc))
    (hdir : d.tree.node? loc = some .dir)
    (hlink : ∀ target, d.tree.node? (name :: loc) ≠ some (.link target)) :
    d.readText p = .error (.os .noEntry) ↔ d.tree.node? (name :: loc) = none := by
  cases hnode : d.tree.node? (name :: loc) with
  | none =>
    have hvacant : d.follow .find p = .ok (.vacant loc name) := follow_spells_vacant h hdir hnode
    simp [readText, read, locate, reach_spells h, hvacant, settled]
  | some node =>
    have hsolid : node.IsSolid := fun target heq => hlink target (heq ▸ hnode)
    simpa using readText_ne_noEntry (locate_spells h hnode hsolid)

end Disk

theorem Manifest.loadOrEmpty_of_ne [Toml.Dialect] {d : Disk} {p : Path}
    (h : d.readText p ≠ .error (.os .noEntry)) : loadOrEmpty d p = load d p := by
  rw [loadOrEmpty, load]
  cases hread : d.readText p with
  | ok text => rfl
  | error e =>
    have hne : e ≠ .os .noEntry := fun heq => h (heq ▸ hread)
    simp [hne]

namespace Config

variable {d : Disk} {project named : Path} {o : Overrides} {env : Environment}

/-- The name of the manifest as the file system has it. -/
def manifestEntry : Name := ⟨"resbuild.toml".toUTF8, by decide +kernel⟩

theorem spells_manifest {loc : Location} (hpath : Location.path? loc = some project)
    (hsize : (project.join ⟨"resbuild.toml"⟩).text.utf8ByteSize ≤ FileSystem.maxPath) :
    (project.join ⟨"resbuild.toml"⟩).Spells (manifestEntry :: loc) := by
  obtain ⟨ps, hps, rfl⟩ := Location.path?_eq_some_iff.mp hpath
  have hname : Path.IsName "resbuild.toml".toList := by decide
  have hjoin := Path.join_ofPieces hps.isName hname
  have hshows : Location.Shows (manifestEntry :: loc) (ps ++ ["resbuild.toml".toList]) := by
    have hentry : (String.ofList "resbuild.toml".toList).toUTF8 = manifestEntry.bytes := by
      rw [String.ofList_toList, manifestEntry]
    rw [Location.Shows, List.reverse_cons, List.map_append, List.map_append, hps, List.map_singleton,
      List.map_singleton, hentry]
  rw [hjoin] at hsize ⊢
  exact hshows.spells hsize

theorem resolve_named (hproject : d.IsCanonicalDir project)
    (hnamed : named = ⟨"resbuild.toml"⟩ ∨ named = project.join ⟨"resbuild.toml"⟩) :
    project.resolve named = project.join ⟨"resbuild.toml"⟩ := by
  have hplace : (project.join ⟨"resbuild.toml"⟩).Clean := hproject.clean.join (by decide)
  rcases hnamed with rfl | rfl
  · rw [Path.resolve, Path.isAbsolute_of_name (by decide), if_neg (by decide), hplace.normalize_eq]
  · exact hplace.resolve_eq project

theorem resolve_of_named [Toml.Dialect] (p : Path) :
    resolve d project { o with manifest := some p } env =
      (Manifest.load d (project.resolve p)).bind (settle d project o env) := rfl

theorem resolve_of_unnamed [Toml.Dialect] (h : o.manifest = none) :
    resolve d project o env =
      (Manifest.loadOrEmpty d (project.join ⟨"resbuild.toml"⟩)).bind (settle d project o env) := by
  rw [resolve, manifestFor, h]
  rfl

/-- What comes of a manifest that is there, whether it is asked for or not. -/
theorem resolve_of_error [Toml.Dialect] {place : Path} {e : IoError} (ho : o.manifest = none)
    (hplace : place = project.join ⟨"resbuild.toml"⟩) (hread : d.readText place = .error e)
    (he : e ≠ .os .noEntry) : resolve d project o env = .error (.io place e) := by
  have hload : Manifest.loadOrEmpty d place = .error (.io place e) := by
    rw [Manifest.loadOrEmpty, hread]
    exact if_neg he
  rw [resolve_of_unnamed ho, ← hplace, hload]
  rfl

theorem resolve_of_refused [Toml.Dialect] {place : Path} {text : String} (ho : o.manifest = none)
    (hplace : place = project.join ⟨"resbuild.toml"⟩) (hread : d.readText place = .ok text)
    (hrefused : (Toml.Dialect.read? text).bind Manifest.ofTable? = none) :
    resolve d project o env =
      .error (.invalidToml ⟨place, Toml.Dialect.complaint .manifest text⟩) := by
  have hload : Manifest.loadOrEmpty d place =
      .error (.invalidToml ⟨place, Toml.Dialect.complaint .manifest text⟩) := by
    rw [Manifest.loadOrEmpty, hread]
    simp only [Manifest.parse, hrefused]
  rw [resolve_of_unnamed ho, ← hplace, hload]
  rfl

/-- To ask for the manifest at its usual place changes nothing, unless it is missing: a file that
cannot be read or does not hold a manifest is the same error for the same cause. A missing one that
is asked for is an error, and otherwise it counts as a manifest without entries. When no link has
its name, it is missing just when nothing has. -/
theorem resolve_named_manifest [Toml.Dialect] (hproject : d.IsCanonicalDir project)
    (ho : o.manifest = none)
    (hnamed : named = ⟨"resbuild.toml"⟩ ∨ named = project.join ⟨"resbuild.toml"⟩)
    (env : Environment) :
    let place := project.join ⟨"resbuild.toml"⟩
    let asked := resolve d project { o with manifest := some named } env
    let unasked := resolve d project o env
    (d.readText place ≠ .error (.os .noEntry) → asked = unasked) ∧
    (∀ e, d.readText place = .error e → e ≠ .os .noEntry →
      asked = .error (.io place e) ∧ unasked = .error (.io place e)) ∧
    (∀ text, d.readText place = .ok text →
      (Toml.Dialect.read? text).bind Manifest.ofTable? = none →
      let refusal : Toml.Refusal := ⟨place, Toml.Dialect.complaint .manifest text⟩
      asked = .error (.invalidToml refusal) ∧ unasked = .error (.invalidToml refusal)) ∧
    (d.readText place = .error (.os .noEntry) →
      asked = .error (.io place (.os .noEntry)) ∧
      unasked = settle d project o env ⟨none, none, none, none, none, none⟩ ∧
      ∀ other text, d.readText (project.resolve other) = .ok text →
        Toml.Dialect.read? text = some [] →
        resolve d project { o with manifest := some other } env = unasked) ∧
    ∀ loc, d.tree.node? loc = some .dir → Location.path? loc = some project →
      place.text.utf8ByteSize ≤ FileSystem.maxPath →
      (∀ target, d.tree.node? (manifestEntry :: loc) ≠ some (.link target)) →
      (d.readText place = .error (.os .noEntry) ↔ d.tree.node? (manifestEntry :: loc) = none) := by
  intro place asked unasked
  have hplace : project.resolve named = place := resolve_named hproject hnamed
  have hsame (hread : d.readText place ≠ .error (.os .noEntry)) : asked = unasked :=
    (resolve_of_named named).trans <| by
      rw [hplace, ← Manifest.loadOrEmpty_of_ne hread]
      exact (resolve_of_unnamed ho).symm
  refine ⟨hsame, fun e hread he => ?_, fun text hread hrefused => ?_, fun hread => ?_,
    fun loc hdir hpath hsize hlink => ?_⟩
  · have hunasked : unasked = .error (.io place e) := resolve_of_error ho rfl hread he
    have hne : d.readText place ≠ .error (.os .noEntry) := fun h =>
      he (Except.error.inj (hread.symm.trans h))
    exact ⟨(hsame hne).trans hunasked, hunasked⟩
  · intro refusal
    have hunasked : unasked = .error (.invalidToml refusal) :=
      resolve_of_refused ho rfl hread hrefused
    have hne : d.readText place ≠ .error (.os .noEntry) := by simp [hread]
    exact ⟨(hsame hne).trans hunasked, hunasked⟩
  · have hload : Manifest.load d place = .error (.io place (.os .noEntry)) := by
      rw [Manifest.load, hread]
    have hempty : Manifest.loadOrEmpty d place = .ok ⟨none, none, none, none, none, none⟩ := by
      rw [Manifest.loadOrEmpty, hread]
      rfl
    have himplicit : unasked = settle d project o env ⟨none, none, none, none, none, none⟩ :=
      (resolve_of_unnamed ho).trans <| by
        rw [hempty]
        rfl
    refine ⟨(resolve_of_named named).trans ?_, himplicit, fun other text hother hparse => ?_⟩
    · rw [hplace, hload]
      rfl
    · have hloaded : Manifest.load d (project.resolve other) =
          .ok ⟨none, none, none, none, none, none⟩ := by
        rw [Manifest.load, hother]
        simp only [Manifest.parse, hparse]
        rfl
      rw [resolve_of_named, hloaded, himplicit]
      rfl
  · exact Disk.readText_spells_noEntry_iff (spells_manifest hpath hsize) hdir hlink

/-- A manifest that is no text, one with a number for a name, and a project without one that can be
given an empty one. -/
theorem resolve_named_manifest_sample :
    let spoken : Toml.Dialect := ⟨Toml.parse, fun _ _ =>
      "TOML parse error at line 1, column 12\n  |\n1 | artifact = 1\n  |            ^\n" ++
        "invalid type: integer `1`, expected a string\n"⟩
    let binary : Disk :=
      ⟨FileSystem.empty.edit [] (.write "/p/resbuild.toml".toUTF8 ⟨#[0xFF]⟩), []⟩
    let mistyped : Disk :=
      ⟨FileSystem.empty.edit [] (.write "/p/resbuild.toml".toUTF8 "artifact = 1".toUTF8), []⟩
    let bare : Disk := ⟨FileSystem.empty.edit [] (.write "/p/other.toml".toUTF8 "#".toUTF8), []⟩
    let o : Overrides := ⟨.standard, none, none, some "a", none, none, none, none⟩
    let asked (p : Path) : Overrides := { o with manifest := some p }
    resolve binary ⟨"/p"⟩ (asked ⟨"resbuild.toml"⟩) ⟨[]⟩ = resolve binary ⟨"/p"⟩ o ⟨[]⟩ ∧
    (let refusal : Toml.Refusal := ⟨⟨"/p/resbuild.toml"⟩, spoken.complaint .manifest "artifact = 1"⟩
    resolve mistyped ⟨"/p"⟩ (asked ⟨"resbuild.toml"⟩) ⟨[]⟩ = .error (.invalidToml refusal) ∧
    resolve mistyped ⟨"/p"⟩ o ⟨[]⟩ = .error (.invalidToml refusal)) ∧
    resolve bare ⟨"/p"⟩ (asked ⟨"/p/resbuild.toml"⟩) ⟨[]⟩ =
      .error (.io ⟨"/p/resbuild.toml"⟩ (.os .noEntry)) ∧
    resolve bare ⟨"/p"⟩ (asked ⟨"other.toml"⟩) ⟨[]⟩ = resolve bare ⟨"/p"⟩ o ⟨[]⟩ := by
  intro spoken binary mistyped bare o asked
  have hbinary : binary.IsCanonicalDir ⟨"/p"⟩ :=
    ⟨Location.ofPath ⟨"/p"⟩, by decide +kernel, by decide +kernel⟩
  have hmistyped : mistyped.IsCanonicalDir ⟨"/p"⟩ :=
    ⟨Location.ofPath ⟨"/p"⟩, by decide +kernel, by decide +kernel⟩
  have hdir : bare.tree.node? (Location.ofPath ⟨"/p"⟩) = some .dir := by decide +kernel
  have hpath : Location.path? (Location.ofPath ⟨"/p"⟩) = some ⟨"/p"⟩ := by decide +kernel
  have hpresent := (resolve_named_manifest hbinary (o := o) rfl (.inl rfl) ⟨[]⟩).1
  obtain ⟨-, -, hrefused, -⟩ := resolve_named_manifest hmistyped (o := o) rfl (.inl rfl) ⟨[]⟩
  obtain ⟨-, -, -, habsent, hmissing⟩ :=
    resolve_named_manifest ⟨_, hdir, hpath⟩ (o := o) rfl (.inr rfl) ⟨[]⟩
  have hvacant : bare.tree.node? (manifestEntry :: Location.ofPath ⟨"/p"⟩) = none := by
    decide +kernel
  have hread : bare.readText ⟨"/p/resbuild.toml"⟩ = .error (.os .noEntry) :=
    (hmissing _ hdir hpath (by decide +kernel) (by simp [hvacant])).mpr hvacant
  obtain ⟨hnamed, -, hempty⟩ := habsent hread
  have hother : bare.readText ⟨"/p/other.toml"⟩ = .ok "#" := by decide +kernel
  have hlength : (Toml.Dialect.read? "#").map List.length = some 0 := by decide +kernel
  have hparse : Toml.Dialect.read? "#" = some [] := by simpa using hlength
  have hnumber : mistyped.readText ⟨"/p/resbuild.toml"⟩ = .ok "artifact = 1" := by decide +kernel
  exact ⟨hpresent (by decide +kernel), hrefused _ hnumber (by decide +kernel), hnamed,
    hempty ⟨"other.toml"⟩ "#" hother hparse⟩

end Config

end WasmBuild
