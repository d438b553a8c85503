import WasmBuild.Config.Layers
import WasmBuild.Proofs.Assignments

/-! Which layer decides an entry of a configuration. Each entry is the first that is present
among its layers, whatever the other entries are, and an empty variable is not present. -/

namespace WasmBuild.Config

open Flags (Assignment)

def firstOf {α : Type} (layers : List (Option α)) : Option α := layers.findSome? id

/-- What counts of a variable is its last value, unless that is empty. -/
def lastValue (vars : List (String × String)) (key : String) : Option String :=
  (vars.reverse.lookup key).filter (· ≠ "")

inductive HasManifest [Toml.Dialect] (d : Disk) (project : Path) (o : Overrides) :
    Manifest → Prop where
  | explicit {p : Path} {text : String} {m : Manifest} (hp : o.manifest = some p)
      (hread : d.readText (project.resolve p) = .ok text)
      (hparse : (Toml.Dialect.read? text).bind Manifest.ofTable? = some m) :
      HasManifest d project o m
  | found {text : String} {m : Manifest} (hp : o.manifest = none)
      (hread : d.readText (project.join ⟨"resbuild.toml"⟩) = .ok text)
      (hparse : (Toml.Dialect.read? text).bind Manifest.ofTable? = some m) :
      HasManifest d project o m
  | missing (hp : o.manifest = none)
      (hread : d.readText (project.join ⟨"resbuild.toml"⟩) = .error (.os .noEntry)) :
      HasManifest d project o ⟨none, none, none, none, none, none⟩

inductive HasAssignments (d : Disk) : Option Path → List Assignment → Prop where
  | none : HasAssignments d none []
  | file {p : Path} {text : String} {all : List Assignment} (hread : d.readText p = .ok text)
      (h : Flags.Assigns (text.toList.splitOn '\n') all) : HasAssignments d (some p) all

inductive HasArtifact [Toml.Dialect] (d : Disk) (project : Path) :
    Option String → String → Prop where
  | named {artifact : String} : HasArtifact d project (some artifact) artifact
  | package {text name : String} {package : Package}
      (hread : d.readText (project.join ⟨"Cargo.toml"⟩) = .ok text)
      (hparse : (Toml.Dialect.read? text).bind Package.ofTable? = some package)
      (hname : firstOf [package.libraryName, package.packageName] = some name) :
      HasArtifact d project none (Package.artifactFor name)

/-- The configuration that the layers make up: the overrides, the variables of the
environment under the assignments of the flags file, the manifest and the defaults. -/
structure Layered [Toml.Dialect] (d : Disk) (project : Path) (o : Overrides) (env : Environment)
    (m : Manifest) (all : List Assignment) (cfg : Config) : Prop where
  manifest : HasManifest d project o m
  flagsFile : cfg.flagsFile =
    (firstOf [o.flagsFile, (lastValue env.vars "RESBUILD_FLAGS_FILE").map Path.mk,
      m.flagsFile.map Path.mk]).map project.resolve
  assignments : HasAssignments d cfg.flagsFile all
  mode : cfg.mode = o.mode
  projectDir : cfg.projectDir = project
  targetDir : cfg.targetDir = project.resolve
    (((lastValue (env.vars ++ all) "CARGO_TARGET_DIR").map Path.mk).getD ⟨"target"⟩)
  coverageDir : cfg.coverageDir = project.resolve
    ((firstOf [o.coverageDir, (lastValue (env.vars ++ all) "RESBUILD_COVERAGE_DIR").map Path.mk,
      m.coverageDir.map Path.mk]).getD ⟨"../wasmcov"⟩)
  cargo : cfg.cargo = (firstOf [o.cargo, lastValue (env.vars ++ all) "CARGO"]).getD "cargo"
  target : cfg.target = (firstOf [o.target, m.target]).getD "wasm32-unknown-unknown"
  artifact : HasArtifact d project (firstOf [o.artifact, m.artifact]) cfg.artifact
  resDir : cfg.resDir = project.resolve ((m.resDir.map Path.mk).getD ⟨"res"⟩)
  /-- A key that is assigned more than once counts where it is assigned last. -/
  extraEnv : cfg.extraEnv = Flags.lastOfEach all
  enabled : cfg.optimize.enabled =
    (firstOf [o.optimize, m.optimize.map OptimizeSection.enabled]).getD false
  tool : cfg.optimize.tool = (m.optimize.bind OptimizeSection.tool).getD "wasm-opt"
  args : cfg.optimize.args = (m.optimize.bind OptimizeSection.args).getD ["-Oz"]

section Reading

variable {d : Disk} {project : Path} {o : Overrides} {env : Environment} {m : Manifest}
  {all : List Assignment}

theorem manifest_parse_eq_ok_iff [Toml.Dialect] {p : Path} {text : String} :
    Manifest.parse p text = .ok m ↔ (Toml.Dialect.read? text).bind Manifest.ofTable? = some m := by
  unfold Manifest.parse
  cases (Toml.Dialect.read? text).bind Manifest.ofTable? <;> simp

theorem manifestFor_eq_ok_iff [Toml.Dialect] :
    manifestFor d project o = .ok m ↔ HasManifest d project o m := by
  unfold manifestFor
  cases ho : o.manifest with
  | some p =>
    constructor
    · intro h
      dsimp only [Manifest.load] at h
      split at h
      · next text hread => exact .explicit ho hread (manifest_parse_eq_ok_iff.mp h)
      · cases h
    · rintro (⟨hp, hread, hparse⟩ | ⟨hp, -, -⟩ | ⟨hp, -⟩)
      · obtain rfl := Option.some.inj (ho.symm.trans hp)
        simp only [Manifest.load, hread, manifest_parse_eq_ok_iff.mpr hparse]
      · simp [ho] at hp
      · simp [ho] at hp
  | none =>
    constructor
    · intro h
      dsimp only [Manifest.loadOrEmpty] at h
      split at h
      · next text hread => exact .found ho hread (manifest_parse_eq_ok_iff.mp h)
      · next e hread =>
        split at h
        · next he =>
          cases h
          exact .missing ho (he ▸ hread)
        · cases h
    · rintro (⟨hp, -, -⟩ | ⟨-, hread, hparse⟩ | ⟨-, hread⟩)
      · simp [ho] at hp
      · simp only [Manifest.loadOrEmpty, manifestName, hread, manifest_parse_eq_ok_iff.mpr hparse]
      · simp only [Manifest.loadOrEmpty, manifestName, hread, if_true]
        rfl

theorem loadFlags_eq_ok_iff {flagsFile : Option Path} {vars : List Binding} :
    loadFlags d flagsFile = .ok vars ↔
      ∃ all, HasAssignments d flagsFile all ∧ vars = Flags.lastOfEach all := by
  cases flagsFile with
  | none =>
    constructor
    · intro h
      cases h
      exact ⟨[], .none, rfl⟩
    · rintro ⟨_, ⟨⟩, rfl⟩
      rfl
  | some p =>
    rw [loadFlags, Flags.load_eq_ok_iff]
    constructor
    · rintro ⟨text, all, hread, hall, hvars⟩
      exact ⟨all, .file hread hall, hvars⟩
    · rintro ⟨all, hall, hvars⟩
      cases hall with
      | file hread h => exact ⟨_, all, hread, h, hvars⟩

theorem firstOf_pair {α : Type} (a b : Option α) : firstOf [a, b] = (a <|> b) := by
  cases a <;> cases b <;> rfl

theorem firstOf_triple {α : Type} (a b c : Option α) : firstOf [a, b, c] = (a <|> b <|> c) := by
  cases a <;> cases b <;> cases c <;> rfl

theorem artifactFor_eq_ok_iff [Toml.Dialect] {artifact : String} :
    artifactFor d project o m = .ok artifact ↔
      HasArtifact d project (firstOf [o.artifact, m.artifact]) artifact := by
  rw [firstOf_pair, artifactFor]
  cases o.artifact <|> m.artifact with
  | some named =>
    constructor
    · intro h
      cases h
      exact .named
    · rintro ⟨⟩
      rfl
  | none =>
    constructor
    · intro h
      dsimp only [Package.loadArtifact] at h
      split at h
      · next text hread =>
        unfold Package.artifactOf at h
        split at h
        · cases h
        next package hparse =>
        split at h
        · next name hname =>
          cases h
          exact .package hread hparse (by rw [firstOf_pair]; exact hname)
        · cases h
      · cases h
    · rintro (- | ⟨hread, hparse, hname⟩)
      rw [firstOf_pair] at hname
      simp only [Package.loadArtifact, packageName, hread, Package.artifactOf, hparse]
      rw [show Package.name? _ = some _ from hname]

/-- The kept assignments of the flags file hide what the environment says, also when the
value is empty. -/
theorem get?_overlay (key : String) :
    (env.overlay (Flags.lastOfEach all)).get? key = lastValue (env.vars ++ all) key := by
  rw [Environment.get?, Environment.last?, Environment.overlay, lastValue, List.reverse_append,
    List.reverse_append, List.lookup_append, List.lookup_append, Flags.lookup_lastOfEach]
  congr 1
  funext value
  by_cases h : value = "" <;> simp [h]

theorem get?_eq_lastValue (key : String) : env.get? key = lastValue env.vars key := by
  have h := @get?_overlay env [] key
  rwa [List.append_nil, Environment.overlay, Flags.lastOfEach, List.append_nil] at h

end Reading

variable {d : Disk} {project : Path} {o : Overrides} {env : Environment} {cfg : Config}

theorem flagsPath?_eq (project : Path) (o : Overrides) (env : Environment) (m : Manifest) :
    flagsPath? project o env m =
      (firstOf [o.flagsFile, (lastValue env.vars "RESBUILD_FLAGS_FILE").map Path.mk,
        m.flagsFile.map Path.mk]).map project.resolve := by
  rw [firstOf_triple, ← get?_eq_lastValue]
  rfl

theorem settle_eq_ok_iff [Toml.Dialect] {m : Manifest} :
    settle d project o env m = .ok cfg ↔
      ∃ flags artifact, loadFlags d (flagsPath? project o env m) = .ok flags ∧
        artifactFor d project o m = .ok artifact ∧
        cfg = {
          mode := o.mode
          projectDir := project
          targetDir := targetDirFor project (env.overlay flags)
          target := (o.target <|> m.target).getD defaultTarget
          artifact
          resDir := project.resolve ((m.resDir.map Path.mk).getD defaultResDir)
          cargo := (o.cargo <|> (env.overlay flags).get? cargoKey).getD defaultCargo
          coverageDir := coverageDirFor project o (env.overlay flags) m
          flagsFile := flagsPath? project o env m
          extraEnv := flags
          optimize := optimizeFor o m } := by
  unfold settle
  cases hflags : loadFlags d (flagsPath? project o env m) with
  | error e => simp [hflags, bind, Except.bind]
  | ok flags =>
    cases artifactFor d project o m with
    | error e => simp [hflags, bind, Except.bind]
    | ok artifact => simp [hflags, bind, Except.bind, pure, Except.pure, eq_comm]

theorem resolve_eq_ok_iff [Toml.Dialect] :
    resolve d project o env = .ok cfg ↔
      ∃ m, manifestFor d project o = .ok m ∧ settle d project o env m = .ok cfg := by
  unfold resolve
  cases manifestFor d project o with
  | error e => simp [bind, Except.bind]
  | ok m => simp [bind, Except.bind]

theorem enabled_optimizeFor (o : Overrides) (m : Manifest) :
    (optimizeFor o m).enabled =
      (firstOf [o.optimize, m.optimize.map OptimizeSection.enabled]).getD false := by
  rw [firstOf_pair]
  cases ho : o.optimize <;> cases hm : m.optimize <;>
    simp [optimizeFor, ho, hm, Optimize.ofSection, Optimize.standard]

theorem tool_optimizeFor (o : Overrides) (m : Manifest) :
    (optimizeFor o m).tool = (m.optimize.bind OptimizeSection.tool).getD "wasm-opt" := by
  cases hm : m.optimize <;> simp [optimizeFor, hm, Optimize.ofSection, Optimize.standard]

theorem args_optimizeFor (o : Overrides) (m : Manifest) :
    (optimizeFor o m).args = (m.optimize.bind OptimizeSection.args).getD ["-Oz"] := by
  cases hm : m.optimize <;> simp [optimizeFor, hm, Optimize.ofSection, Optimize.standard]

theorem layered_iff [Toml.Dialect] {m : Manifest} {all : List Assignment} :
    Layered d project o env m all cfg ↔
      manifestFor d project o = .ok m ∧ HasAssignments d (flagsPath? project o env m) all ∧
        ∃ artifact, artifactFor d project o m = .ok artifact ∧
          cfg = {
            mode := o.mode
            projectDir := project
            targetDir := targetDirFor project (env.overlay (Flags.lastOfEach all))
            target := (o.target <|> m.target).getD defaultTarget
            artifact
            resDir := project.resolve ((m.resDir.map Path.mk).getD defaultResDir)
            cargo := (o.cargo <|> (env.overlay (Flags.lastOfEach all)).get? cargoKey).getD
              defaultCargo
            coverageDir := coverageDirFor project o (env.overlay (Flags.lastOfEach all)) m
            flagsFile := flagsPath? project o env m
            extraEnv := Flags.lastOfEach all
            optimize := optimizeFor o m } := by
  have htargetDir : targetDirFor project (env.overlay (Flags.lastOfEach all)) = project.resolve
      (((lastValue (env.vars ++ all) "CARGO_TARGET_DIR").map Path.mk).getD ⟨"target"⟩) := by
    rw [targetDirFor, get?_overlay]
    rfl
  have hcoverageDir : coverageDirFor project o (env.overlay (Flags.lastOfEach all)) m =
      project.resolve ((firstOf [o.coverageDir,
        (lastValue (env.vars ++ all) "RESBUILD_COVERAGE_DIR").map Path.mk,
        m.coverageDir.map Path.mk]).getD ⟨"../wasmcov"⟩) := by
    rw [coverageDirFor, get?_overlay, firstOf_triple]
    rfl
  rw [htargetDir, hcoverageDir, flagsPath?_eq, get?_overlay, ← firstOf_pair o.cargo,
    ← firstOf_pair o.target]
  constructor
  · intro h
    refine ⟨manifestFor_eq_ok_iff.mpr h.manifest, h.flagsFile ▸ h.assignments, cfg.artifact,
      artifactFor_eq_ok_iff.mpr h.artifact, ?_⟩
    have hoptimize : cfg.optimize = optimizeFor o m := by
      have henabled := h.enabled.trans (enabled_optimizeFor o m).symm
      have htool := h.tool.trans (tool_optimizeFor o m).symm
      have hargs := h.args.trans (args_optimizeFor o m).symm
      rcases hcfg : cfg.optimize with ⟨enabled, tool, args⟩
      rw [hcfg] at henabled htool hargs
      exact congr (congr (congrArg Optimize.mk henabled) htool) hargs
    rcases cfg with ⟨mode, projectDir, targetDir, target, artifact, resDir, cargo, coverageDir,
      flagsFile, extraEnv, optimize⟩
    simp only [Config.mk.injEq]
    exact ⟨h.mode, h.projectDir, h.targetDir, h.target, trivial, h.resDir, h.cargo, h.coverageDir,
      h.flagsFile, h.extraEnv, hoptimize⟩
  · rintro ⟨hmanifest, hassignments, artifact, hartifact, rfl⟩
    exact {
      manifest := manifestFor_eq_ok_iff.mp hmanifest
      flagsFile := rfl
      assignments := hassignments
      mode := rfl
      projectDir := rfl
      targetDir := rfl
      coverageDir := rfl
      cargo := rfl
      target := rfl
      artifact := artifactFor_eq_ok_iff.mp hartifact
      resDir := rfl
      extraEnv := rfl
      enabled := enabled_optimizeFor o m
      tool := tool_optimizeFor o m
      args := args_optimizeFor o m }

/-- The configurations that are settled for a project are those that the layers make up. -/
theorem resolve_iff_layered [Toml.Dialect] :
    resolve d project o env = .ok cfg ↔ ∃ m all, Layered d project o env m all cfg := by
  simp only [resolve_eq_ok_iff, settle_eq_ok_iff, layered_iff, loadFlags_eq_ok_iff]
  constructor
  · rintro ⟨m, hm, _, artifact, ⟨all, hall, rfl⟩, hartifact, hcfg⟩
    exact ⟨m, all, hm, hall, artifact, hartifact, hcfg⟩
  · rintro ⟨m, all, hm, hall, artifact, hartifact, hcfg⟩
    exact ⟨m, hm, _, artifact, ⟨all, hall, rfl⟩, hartifact, hcfg⟩

end WasmBuild.Config
