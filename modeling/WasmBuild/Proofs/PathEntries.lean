import WasmBuild.Proofs.NormalForm
import WasmBuild.Proofs.Precedence

/-! The paths of a configuration. Whichever layer a path comes from, it is put into its normal
form, and a relative one is taken from the project directory. So nothing changes when the path
that came of it is given in its place. -/

namespace WasmBuild.Config

/-- What a configuration is settled from, once the files are read. -/
structure Sources where
  overrides : Overrides
  flags : List Binding
  env : Environment
  manifest : Manifest

/-- The files of a project hold the manifest and the flags of the sources. -/
structure Sources.Loaded [Toml.Dialect] (s : Sources) (d : Disk) (project : Path) : Prop where
  manifest : manifestFor d project s.overrides = .ok s.manifest
  flags : loadFlags d (flagsPath? project s.overrides s.env s.manifest) = .ok s.flags

/-- The layers that may give a path, the strongest first. -/
inductive Layer where
  | overrides
  | flags
  | environment
  | manifest
  | standard
deriving DecidableEq

def Layer.all : List Layer := [overrides, flags, environment, manifest, standard]

def Layer.rank (layer : Layer) : Nat := Layer.all.idxOf layer

inductive PathEntry where
  | targetDir
  | coverageDir
  | resDir
  | flagsFile
deriving DecidableEq

namespace PathEntry

def of (cfg : Config) : PathEntry → Option Path
  | targetDir => some cfg.targetDir
  | coverageDir => some cfg.coverageDir
  | resDir => some cfg.resDir
  | flagsFile => cfg.flagsFile

def key? : PathEntry → Option String
  | targetDir => some "CARGO_TARGET_DIR"
  | coverageDir => some "RESBUILD_COVERAGE_DIR"
  | resDir => none
  | flagsFile => some "RESBUILD_FLAGS_FILE"

/-- The variable by which the flags give an entry; they cannot name their own file. -/
def flagsKey? (entry : PathEntry) : Option String :=
  if entry = flagsFile then none else entry.key?

def standard? : PathEntry → Option String
  | targetDir => some "target"
  | coverageDir => some "../wasmcov"
  | resDir => some "res"
  | flagsFile => none

/-- Whether the flags assign the variable of an entry, be it to nothing. -/
def isAssigned (entry : PathEntry) (flags : List Binding) : Bool :=
  entry.flagsKey?.any fun key => flags.any (·.1 == key)

/-- The path that a layer gives. A variable that the flags assign hides that of the
environment. -/
def given (entry : PathEntry) (s : Sources) : Layer → Option Path
  | .overrides =>
    match entry with
    | coverageDir => s.overrides.coverageDir
    | flagsFile => s.overrides.flagsFile
    | _ => none
  | .flags => (entry.flagsKey?.bind (lastValue s.flags)).map Path.mk
  | .environment =>
    if entry.isAssigned s.flags then none
    else (entry.key?.bind (lastValue s.env.vars)).map Path.mk
  | .manifest =>
    match entry with
    | targetDir => none
    | coverageDir => s.manifest.coverageDir.map Path.mk
    | resDir => s.manifest.resDir.map Path.mk
    | flagsFile => s.manifest.flagsFile.map Path.mk
  | .standard => entry.standard?.map Path.mk

/-- The strongest layer that gives a path, and this path. -/
def chosen (entry : PathEntry) (s : Sources) : Option (Layer × Path) :=
  Layer.all.findSome? fun layer => (entry.given s layer).map (layer, ·)

/-- The sources with a path in the place of the one that a layer gives. A default stays. -/
def give (entry : PathEntry) (path : Path) (s : Sources) : Layer → Sources
  | .overrides => { s with
      overrides := match entry with
        | coverageDir => { s.overrides with coverageDir := some path }
        | flagsFile => { s.overrides with flagsFile := some path }
        | _ => s.overrides }
  | .flags => { s with
      flags := match entry.flagsKey? with
        | some key => Flags.assign s.flags (key, path.text)
        | none => s.flags }
  | .environment => { s with
      env := match entry.key? with
        | some key => s.env.overlay [(key, path.text)]
        | none => s.env }
  | .manifest => { s with
      manifest := match entry with
        | targetDir => s.manifest
        | coverageDir => { s.manifest with coverageDir := some path.text }
        | resDir => { s.manifest with resDir := some path.text }
        | flagsFile => { s.manifest with flagsFile := some path.text } }
  | .standard => s

end PathEntry

section LastValue

variable {vars flags : List Binding} {key value : String}

theorem lookup_reverse_eq_none (h : flags.any (·.1 == key) = false) :
    flags.reverse.lookup key = none := by
  refine List.lookup_eq_none_iff.mpr fun b hb => ?_
  have hne : b.1 ≠ key := by simpa using List.any_eq_false.mp h b (List.mem_reverse.mp hb)
  simpa using hne.symm

theorem lastValue_eq_none (h : flags.any (·.1 == key) = false) : lastValue flags key = none := by
  rw [lastValue, lookup_reverse_eq_none h]
  rfl

/-- A variable that is assigned hides the value it had before, also when it becomes empty. -/
theorem lastValue_append (vars flags : List Binding) (key : String) :
    lastValue (vars ++ flags) key =
      if flags.any (·.1 == key) then lastValue flags key else lastValue vars key := by
  rw [lastValue, lastValue, lastValue, List.reverse_append, List.lookup_append]
  by_cases h : flags.any (·.1 == key) = true
  · have hsome : (flags.reverse.lookup key).isSome := by
      obtain ⟨b, hb, hkey⟩ := List.any_eq_true.mp h
      have hkey : key = b.1 := (beq_iff_eq.mp hkey).symm
      exact List.lookup_isSome_iff.mpr ⟨b, List.mem_reverse.mpr hb, beq_iff_eq.mpr hkey⟩
    rw [if_pos h, Option.or_of_isSome hsome]
  · rw [if_neg h, lookup_reverse_eq_none (Bool.eq_false_iff.mpr h), Option.none_or]

theorem lastValue_concat (vars : List Binding) (h : value ≠ "") :
    lastValue (vars ++ [(key, value)]) key = some value := by
  rw [lastValue_append, if_pos (by simp), lastValue]
  simp [h]

end LastValue

namespace PathEntry

variable {d : Disk} {project : Path} {cfg : Config} {entry : PathEntry} {s s' : Sources}
  {layer : Layer} {p path : Path}

theorem map_chosen (entry : PathEntry) (s : Sources) :
    (entry.chosen s).map Prod.snd =
      (entry.given s .overrides <|> (entry.given s .flags <|> entry.given s .environment) <|>
        entry.given s .manifest <|> entry.given s .standard) := by
  simp only [chosen, Layer.all, List.findSome?_cons]
  cases entry.given s .overrides <;> cases entry.given s .flags <;>
    cases entry.given s .environment <;> cases entry.given s .manifest <;>
    cases entry.given s .standard <;> rfl

theorem given_variable {key : String} (hkey : entry.key? = some key) (hentry : entry ≠ flagsFile)
    (s : Sources) :
    (entry.given s .flags <|> entry.given s .environment) =
      (lastValue (s.env.vars ++ s.flags) key).map Path.mk := by
  have hflagsKey : entry.flagsKey? = some key := by rw [flagsKey?, if_neg hentry, hkey]
  rw [lastValue_append]
  by_cases h : s.flags.any (·.1 == key) = true
  · have hassigned : entry.isAssigned s.flags = true := by
      rw [isAssigned, hflagsKey]
      exact h
    simp only [given, hflagsKey, hassigned, if_true, Option.bind_some, if_pos h]
    cases lastValue s.flags key <;> rfl
  · replace h : s.flags.any (·.1 == key) = false := Bool.eq_false_iff.mpr h
    have hassigned : entry.isAssigned s.flags = false := by
      rw [isAssigned, hflagsKey]
      exact h
    have hnone := lastValue_eq_none h
    simp only [given, hflagsKey, hkey, hassigned, Bool.false_eq_true, if_false, Option.bind_some,
      hnone, h]
    rfl

theorem get?_overlay (env : Environment) (flags : List Binding) (key : String) :
    (env.overlay flags).get? key = lastValue (env.vars ++ flags) key :=
  get?_eq_lastValue key

/-- Every path of a configuration is that of the strongest layer which gives one. -/
theorem of_settle [Toml.Dialect] (hs : s.Loaded d project)
    (h : settle d project s.overrides s.env s.manifest = .ok cfg) (entry : PathEntry) :
    entry.of cfg = (entry.chosen s).map fun c => project.resolve c.2 := by
  obtain ⟨flags, artifact, hflags, -, rfl⟩ := settle_eq_ok_iff.mp h
  obtain rfl : flags = s.flags := Except.ok.inj (hflags.symm.trans hs.flags)
  have hchosen : ((entry.chosen s).map fun c => project.resolve c.2) =
      ((entry.chosen s).map Prod.snd).map project.resolve := by
    rw [Option.map_map]
    rfl
  rw [hchosen, map_chosen]
  cases entry with
  | targetDir =>
    have hvariable := @given_variable targetDir "CARGO_TARGET_DIR" rfl (by decide) s
    have hget := get?_overlay s.env s.flags "CARGO_TARGET_DIR"
    rw [hvariable]
    simp only [of, targetDirFor, targetDirKey, hget]
    cases lastValue (s.env.vars ++ s.flags) "CARGO_TARGET_DIR" <;> rfl
  | coverageDir =>
    have hvariable := @given_variable coverageDir "RESBUILD_COVERAGE_DIR" rfl (by decide) s
    have hget := get?_overlay s.env s.flags "RESBUILD_COVERAGE_DIR"
    rw [hvariable]
    simp only [of, coverageDirFor, coverageDirKey, hget, given]
    cases s.overrides.coverageDir <;>
      cases lastValue (s.env.vars ++ s.flags) "RESBUILD_COVERAGE_DIR" <;>
      cases s.manifest.coverageDir <;> rfl
  | resDir =>
    simp only [of, given]
    cases s.manifest.resDir <;> rfl
  | flagsFile =>
    have hget : s.env.get? "RESBUILD_FLAGS_FILE" = lastValue s.env.vars "RESBUILD_FLAGS_FILE" :=
      get?_eq_lastValue _
    have hflags : given flagsFile s .flags = none := by simp [given, flagsKey?]
    have henvironment : given flagsFile s .environment =
        (lastValue s.env.vars "RESBUILD_FLAGS_FILE").map Path.mk := by
      simp [given, isAssigned, flagsKey?, key?]
    rw [hflags, henvironment]
    simp only [of, flagsPath?, flagsFileKey, hget, given]
    cases s.overrides.flagsFile <;> cases lastValue s.env.vars "RESBUILD_FLAGS_FILE" <;>
      cases s.manifest.flagsFile <;> rfl

theorem chosen_eq_some_iff :
    entry.chosen s = some (layer, p) ↔
      ∃ stronger weaker, Layer.all = stronger ++ layer :: weaker ∧
        entry.given s layer = some p ∧ ∀ l ∈ stronger, entry.given s l = none := by
  rw [chosen, List.findSome?_eq_some_iff]
  constructor
  · rintro ⟨stronger, l, weaker, hall, hgiven, hnone⟩
    obtain ⟨found, hfound, heq⟩ := Option.map_eq_some_iff.mp hgiven
    obtain ⟨rfl, rfl⟩ := Prod.mk.inj heq
    exact ⟨stronger, weaker, hall, hfound, fun l hl => Option.map_eq_none_iff.mp (hnone l hl)⟩
  · rintro ⟨stronger, weaker, hall, hgiven, hnone⟩
    refine ⟨stronger, layer, weaker, hall, by rw [hgiven]; rfl, fun l hl => ?_⟩
    rw [hnone l hl]
    rfl

theorem given_give (h : entry.given s layer = some p) (hlayer : layer ≠ .standard)
    (hpath : path.text ≠ "") : entry.given (entry.give path s layer) layer = some path := by
  cases layer with
  | standard => exact absurd rfl hlayer
  | overrides =>
    cases entry with
    | coverageDir | flagsFile => rfl
    | targetDir | resDir => cases h
  | manifest =>
    cases entry with
    | coverageDir | resDir | flagsFile => rfl
    | targetDir => cases h
  | flags =>
    cases hkey : entry.flagsKey? with
    | none => simp [given, hkey] at h
    | some key =>
      simp only [given, give, hkey, Option.bind_some, Flags.assign, lastValue_concat _ hpath]
      rfl
  | environment =>
    cases hkey : entry.key? with
    | none => simp [given, hkey] at h
    | some key =>
      have hfree : entry.isAssigned s.flags = false := by
        refine Bool.eq_false_iff.mpr fun hassigned => ?_
        simp [given, hassigned] at h
      simp only [given, give, hkey, hfree, Bool.false_eq_true, if_false, Option.bind_some,
        Environment.overlay, lastValue_concat _ hpath]
      rfl

theorem rank_lt {stronger weaker : List Layer} {l : Layer}
    (hall : Layer.all = stronger ++ layer :: weaker) (hl : l ∈ stronger) : l.rank < layer.rank := by
  have hsorted : Layer.all.Pairwise fun l l' => l.rank < l'.rank := by decide
  rw [hall, List.pairwise_append] at hsorted
  exact hsorted.2.2 l hl layer List.mem_cons_self

theorem given_give_of_rank_lt {l : Layer} (h : l.rank < layer.rank) :
    entry.given (entry.give path s layer) l = entry.given s l := by
  cases layer with
  | standard => rfl
  | overrides => exact absurd h (Nat.not_lt_zero _)
  | flags =>
    cases l with
    | overrides => rfl
    | flags | environment | manifest | standard => exact absurd h (by decide)
  | environment =>
    cases l with
    | overrides | flags => rfl
    | environment | manifest | standard => exact absurd h (by decide)
  | manifest =>
    cases l with
    | overrides | flags | environment => rfl
    | manifest | standard => exact absurd h (by decide)

theorem chosen_give (h : entry.chosen s = some (layer, p)) (hlayer : layer ≠ .standard)
    (hpath : path.text ≠ "") : entry.chosen (entry.give path s layer) = some (layer, path) := by
  obtain ⟨stronger, weaker, hall, hgiven, hnone⟩ := chosen_eq_some_iff.mp h
  refine chosen_eq_some_iff.mpr ⟨stronger, weaker, hall, given_give hgiven hlayer hpath, ?_⟩
  intro l hl
  rw [given_give_of_rank_lt (rank_lt hall hl), hnone l hl]

theorem chosen_of_resolved (h : entry.chosen s = some (layer, p)) (hpath : path.Clean)
    (hp : project.resolve p = path) :
    ((entry.chosen (entry.give path s layer)).map fun c => project.resolve c.2) = some path := by
  by_cases hlayer : layer = .standard
  · subst hlayer
    have hsame : entry.give path s .standard = s := rfl
    rw [hsame, h, Option.map_some, hp]
  · have hne : path.text ≠ "" := by
      intro hempty
      obtain ⟨rest, hrest⟩ := Path.isAbsolute_iff.mp hpath.isAbsolute
      rw [Path.chars, hempty] at hrest
      cases hrest
    rw [chosen_give h hlayer hne, Option.map_some, hpath.resolve_eq]

end PathEntry

variable {d : Disk} {project : Path} {o : Overrides} {env : Environment} {cfg : Config}

theorem loaded_of_resolve [Toml.Dialect] (h : resolve d project o env = .ok cfg) :
    ∃ s : Sources, s.overrides = o ∧ s.env = env ∧ s.Loaded d project ∧
      settle d project s.overrides s.env s.manifest = .ok cfg := by
  obtain ⟨m, hm, hsettle⟩ := resolve_eq_ok_iff.mp h
  obtain ⟨flags, -, hflags, -, -⟩ := settle_eq_ok_iff.mp hsettle
  exact ⟨⟨o, flags, env, m⟩, rfl, rfl, ⟨hm, hflags⟩, hsettle⟩

theorem of_resolve [Toml.Dialect] {s : Sources} (hs : s.Loaded d project)
    (h : resolve d project s.overrides s.env = .ok cfg) (entry : PathEntry) :
    entry.of cfg = (entry.chosen s).map fun c => project.resolve c.2 := by
  obtain ⟨m, hm, hsettle⟩ := resolve_eq_ok_iff.mp h
  obtain rfl : m = s.manifest := Except.ok.inj (hm.symm.trans hs.manifest)
  exact entry.of_settle hs hsettle

/-- Every path of a configuration is the normal form of the one that its strongest layer gives,
taken from the project directory when it is relative. It is the same again when it is itself given
at that layer. -/
theorem paths_of_resolve [Toml.Dialect] (hproject : project.isAbsolute = true)
    (h : resolve d project o env = .ok cfg) :
    ∃ s : Sources, s.overrides = o ∧ s.env = env ∧ s.Loaded d project ∧
      ∀ entry : PathEntry, (entry.of cfg = none ↔ entry.chosen s = none) ∧
        ∀ layer p, entry.chosen s = some (layer, p) →
          ∃ path, entry.of cfg = some path ∧ path.Clean ∧
            (if p.isAbsolute then p else project.join p).IsNormalForm path ∧
            let again := entry.give path s layer
            ∀ d' cfg', again.Loaded d' project →
              resolve d' project again.overrides again.env = .ok cfg' →
              entry.of cfg' = some path := by
  obtain ⟨s, rfl, rfl, hs, hsettle⟩ := loaded_of_resolve h
  refine ⟨s, rfl, rfl, hs, fun entry => ?_⟩
  have hof := entry.of_settle hs hsettle
  refine ⟨by rw [hof, Option.map_eq_none_iff], fun layer p hchosen => ?_⟩
  have hclean := Path.clean_resolve hproject p
  have hform := Path.isNormalForm_resolve hproject p
  refine ⟨project.resolve p, by rw [hof, hchosen]; rfl, hclean, hform, ?_⟩
  intro again d' cfg' hagain hcfg'
  rw [of_resolve hagain hcfg' entry]
  exact PathEntry.chosen_of_resolved hchosen hclean rfl

/-- A target directory that the environment gives, with no file on the disk. -/
theorem paths_of_resolve_sample :
    let o : Overrides := ⟨.standard, none, none, some "a", none, none, none, none⟩
    let env : Environment := ⟨[("CARGO_TARGET_DIR", "x//../y/")]⟩
    let env' := env.overlay [("CARGO_TARGET_DIR", "/p/y")]
    let d : Disk := ⟨FileSystem.empty, []⟩
    ∃ cfg cfg', resolve d ⟨"/p"⟩ o env = .ok cfg ∧ cfg.targetDir = ⟨"/p/y"⟩ ∧
      (⟨"/p/x//../y/"⟩ : Path).IsNormalForm ⟨"/p/y"⟩ ∧
      resolve d ⟨"/p"⟩ o env' = .ok cfg' ∧ cfg'.targetDir = ⟨"/p/y"⟩ := by
  intro o env env' d
  have hmanifest : manifestFor d ⟨"/p"⟩ o = .ok Manifest.empty := by rfl
  have hresolved : (resolve d ⟨"/p"⟩ o env).toOption.isSome := by decide +kernel
  have hresolved' : (resolve d ⟨"/p"⟩ o env').toOption.isSome := by decide +kernel
  cases hcfg : resolve d ⟨"/p"⟩ o env with
  | error e => simp [hcfg, Except.toOption] at hresolved
  | ok cfg =>
  cases hcfg' : resolve d ⟨"/p"⟩ o env' with
  | error e => simp [hcfg', Except.toOption] at hresolved'
  | ok cfg' =>
    obtain ⟨⟨_, flags, _, m⟩, rfl, rfl, hs, hpaths⟩ := paths_of_resolve (by decide +kernel) hcfg
    obtain rfl : m = Manifest.empty := Except.ok.inj (hs.manifest.symm.trans hmanifest)
    obtain rfl : flags = [] := Except.ok.inj (hs.flags.symm.trans rfl)
    obtain ⟨path, hpath, hclean, hform, hagain⟩ :=
      (hpaths .targetDir).2 .environment ⟨"x//../y/"⟩ (by decide +kernel)
    obtain rfl : path = ⟨"/p/y"⟩ := by
      have hnormal := (Path.isNormalForm_iff (by decide +kernel)).mp hform
      rw [hnormal]
      decide +kernel
    have hcfg'' := hagain d cfg' ⟨hmanifest, rfl⟩ hcfg'
    exact ⟨cfg, cfg', rfl, Option.some.inj hpath, hform, rfl, Option.some.inj hcfg''⟩

end WasmBuild.Config
