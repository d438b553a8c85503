import WasmBuild.FileSystem.Changes
import WasmBuild.Plan
import WasmBuild.Proofs.Lookups
import WasmBuild.Proofs.Revisions

/-! The directory of the mode that is not asked for. In coverage mode nothing that is done
depends on the target directory, be it said by the environment or by the flags file, and in
standard mode nothing depends on the coverage directory, wherever it is said. -/

namespace WasmBuild

namespace Flags

/-- The variables without one of them. -/
def without (key : String) (vars : List Assignment) : List Assignment :=
  vars.filter (·.1 != key)

/-- Lines that are the same, or that give the key a value each. -/
def LineDiffers (key : String) (line line' : List Char) : Prop :=
  line' = line ∨ ∃ value value', readLine line = .ok (some (key, value)) ∧
    readLine line' = .ok (some (key, value'))

/-- Texts that differ in nothing but the values that they give the key. -/
def DifferIn (key : String) (text text' : String) : Prop :=
  List.Forall₂ (LineDiffers key) (text.toList.splitOn '\n') (text'.toList.splitOn '\n')

section Without

variable {key : String} {vars vars' : List Assignment}

theorem without_assign_self (key value : String) (vars : List Assignment) :
    without key (assign vars (key, value)) = without key vars := by
  simp [without, assign]

theorem without_assign (h : without key vars' = without key vars) (new : Assignment) :
    without key (assign vars' new) = without key (assign vars new) := by
  have hswap (vars : List Assignment) :
      without key (assign vars new) =
        (without key vars).filter (·.1 != new.1) ++ without key [new] := by
    simp only [without, assign, List.filter_append, List.filter_filter, Bool.and_comm]
  rw [hswap, hswap, h]

theorem last?_of_without (h : without key vars' = without key vars) {other : String}
    (hother : other ≠ key) :
    (Environment.mk vars').last? other = (Environment.mk vars).last? other := by
  have hkept : (other != key) = true := by simpa using hother
  have hlookup (vars : List Assignment) :
      (Environment.mk vars).last? other = (without key vars).reverse.lookup other := by
    have hfilter := lookup_filter (· != key) vars.reverse other
    rw [if_pos hkept] at hfilter
    rw [Environment.last?, without, ← List.filter_reverse, hfilter]
  rw [hlookup, hlookup, h]

/-- Line by line, the same fault is met or the same other variables are kept. -/
theorem readLines_differ {lines lines' : List (List Char)}
    (hlines : List.Forall₂ (LineDiffers key) lines lines') (n : Nat)
    (h : without key vars' = without key vars) :
    (readLines n vars' lines').map (without key) = (readLines n vars lines).map (without key) := by
  induction hlines generalizing n vars vars' with
  | nil => exact congrArg Except.ok h
  | @cons line line' rest rest' hline _ ih =>
    rcases hline with rfl | ⟨value, value', hread, hread'⟩
    · rw [readLines, readLines]
      rcases readLine line' with fault | (_ | new)
      · rfl
      · exact ih (n + 1) h
      · exact ih (n + 1) (without_assign h new)
    · rw [readLines, readLines, hread, hread']
      refine ih (n + 1) ?_
      rw [without_assign_self, without_assign_self, h]

theorem parse_differ {text text' : String} (h : DifferIn key text text') :
    (parse text').map (without key) = (parse text).map (without key) :=
  readLines_differ h 1 rfl

theorem load_of_readText {d : Disk} {p : Path} {text : String} (h : d.readText p = .ok text) :
    load d p = (parse text).mapError fun fault => .invalidFlags p fault.line fault.message := by
  rw [load, h]
  dsimp only
  cases parse text <;> rfl

theorem map_mapError {ε δ α β : Type} (x : Except ε α) (f : α → β) (g : ε → δ) :
    (x.mapError g).map f = (x.map f).mapError g := by
  cases x <;> rfl

theorem load_differ {d other : Disk} {loc : Location} (h : d.Revised (DifferIn key) loc other)
    (p : Path) : (load other p).map (without key) = (load d p).map (without key) := by
  rcases h.readText_cases p with heq | ⟨text, text', hdiffer, hread, hread'⟩
  · rw [load, load, heq]
  · rw [load_of_readText hread, load_of_readText hread', map_mapError, map_mapError,
      parse_differ hdiffer]

end Without

end Flags

namespace Manifest

open Toml

/-- Tables that differ in nothing but the text that they give one key, if any. -/
structure EntriesDiffer (key : String) (entries entries' : Table) : Prop where
  others : ∀ other, other ≠ key → entries'.lookup other = entries.lookup other
  before : entries.lookup key = none ∨ ∃ s, entries.lookup key = some (.string s)
  after : entries'.lookup key = none ∨ ∃ s, entries'.lookup key = some (.string s)

/-- Manifests that differ in nothing but their coverage directory. -/
def DifferInCoverageDir [Dialect] (text text' : String) : Prop :=
  ∃ entries entries', Dialect.read? text = some entries ∧ Dialect.read? text' = some entries' ∧
    EntriesDiffer "coverage_dir" entries entries'

section Tables

variable {entries entries' : Table}

theorem hasOnly_iff {keys : List String} :
    entries.hasOnly keys = true ↔ ∀ key, (entries.lookup key).isSome → key ∈ keys := by
  rw [Table.hasOnly, List.all_eq_true]
  constructor
  · intro h key hkey
    obtain ⟨e, he, heq⟩ := List.lookup_isSome_iff.mp hkey
    rw [beq_iff_eq.mp heq]
    simpa using h e he
  · intro h e he
    have hmem := h e.1 (List.lookup_isSome_iff.mpr ⟨e, he, BEq.rfl⟩)
    simpa using hmem

variable {key : String}

theorem EntriesDiffer.hasOnly_eq (h : EntriesDiffer key entries entries') {keys : List String}
    (hkey : key ∈ keys) : entries'.hasOnly keys = entries.hasOnly keys := by
  rw [Bool.eq_iff_iff, hasOnly_iff, hasOnly_iff]
  refine forall_congr' fun other => ?_
  by_cases hother : other = key
  · simp [hother, hkey]
  · rw [h.others other hother]

theorem EntriesDiffer.entry?_eq {α : Type} (h : EntriesDiffer key entries entries')
    {other : String} (hother : other ≠ key) (read : Value → Option α) :
    entries'.entry? other read = entries.entry? other read := by
  rw [Table.entry?, Table.entry?, h.others other hother]

theorem entry?_of_text
    (h : entries.lookup key = none ∨ ∃ s, entries.lookup key = some (.string s)) :
    ∃ text, entries.entry? key Value.string? = some text := by
  rw [Table.entry?]
  rcases h with h | ⟨s, h⟩
  · exact ⟨none, by rw [h]⟩
  · exact ⟨some s, by rw [h]; rfl⟩

/-- A manifest without its coverage directory. -/
def core (m : Manifest) : Manifest := { m with coverageDir := none }

theorem ofTable?_differ (h : EntriesDiffer "coverage_dir" entries entries') :
    (ofTable? entries').map core = (ofTable? entries).map core := by
  obtain ⟨dir, hdir⟩ := entry?_of_text h.before
  obtain ⟨dir', hdir'⟩ := entry?_of_text h.after
  rw [ofTable?, ofTable?, h.hasOnly_eq (by decide), hdir, hdir', h.entry?_eq (by decide),
    h.entry?_eq (by decide), h.entry?_eq (by decide), h.entry?_eq (by decide),
    h.entry?_eq (by decide)]
  generalize (guard (entries.hasOnly keys) : Option Unit) = admitted
  simp only [Option.bind_eq_bind, Option.map_bind, Function.comp_def, Option.bind_some,
    Option.pure_def, Option.map_some, core]

theorem eq_of_core {m m' : Manifest} (h : core m' = core m) :
    m' = { m with coverageDir := m'.coverageDir } := by
  cases m
  cases m'
  simp only [core, mk.injEq] at h ⊢
  tauto

/-- Of such manifests both are read, but for that directory, or both are refused, each with the
words for its own text. -/
theorem parse_differ [Dialect] {text text' : String} (h : DifferInCoverageDir text text')
    (p : Path) :
    (parse p text').map core = (parse p text).map core ∨
      parse p text = .error (.invalidToml ⟨p, Dialect.complaint .manifest text⟩) ∧
        parse p text' = .error (.invalidToml ⟨p, Dialect.complaint .manifest text'⟩) := by
  obtain ⟨entries, entries', hparse, hparse', hdiffer⟩ := h
  have hread := ofTable?_differ hdiffer
  rw [parse, parse, hparse, hparse', Option.bind_some, Option.bind_some]
  cases hm : ofTable? entries with
  | none =>
    cases hm' : ofTable? entries' with
    | none => exact .inr ⟨rfl, rfl⟩
    | some m' => simp [hm, hm'] at hread
  | some m =>
    cases hm' : ofTable? entries' with
    | none => simp [hm, hm'] at hread
    | some m' => exact .inl (by simpa [hm, hm', Except.map] using hread)

end Tables

end Manifest

namespace Config

def plan (cfg : Config) : Plan := .ofConfig (Backend.ofMode cfg.mode) cfg

def manifestPath (project : Path) (o : Overrides) : Path :=
  match o.manifest with
  | some p => project.resolve p
  | none => project.join ⟨manifestName⟩

/-- The manifest holds a text that is refused, and this is the error that says so. -/
def RefusedManifest [Toml.Dialect] (d : Disk) (project : Path) (o : Overrides)
    (e : BuildError) : Prop :=
  ∃ text, d.readText (manifestPath project o) = .ok text ∧
    e = .invalidToml ⟨manifestPath project o, Toml.Dialect.complaint .manifest text⟩

/-- A configuration without the directory of the other mode, and without a target directory among
its variables. -/
def active (cfg : Config) : Config :=
  match cfg.mode with
  | .standard => { cfg with
      coverageDir := ⟨""⟩
      extraEnv := Flags.without targetDirKey cfg.extraEnv }
  | .coverage => { cfg with
      targetDir := ⟨""⟩
      extraEnv := Flags.without targetDirKey cfg.extraEnv }

theorem plan_active (cfg : Config) : cfg.active.plan = cfg.plan := by
  have hwithout (vars : List Binding) : (Flags.without targetDirKey vars).filter
      (·.1 != targetDirKey) = vars.filter (·.1 != targetDirKey) := by
    simp [Flags.without]
  rcases cfg with ⟨mode, project, targetDir, target, artifact, res, cargo, coverageDir, flagsFile,
    vars, optimize⟩
  cases mode with
  | standard =>
    simp only [plan, active, Plan.ofConfig, Backend.ofMode, Backend.cargo, Backend.baseEnv,
      hwithout]
    rfl
  | coverage =>
    simp only [plan, active, Plan.ofConfig, Backend.ofMode, Backend.wasmcov, Backend.baseEnv,
      hwithout]
    rfl

/-- The configuration that the layers make up, with the variables of the flags file. -/
def assemble (project : Path) (o : Overrides) (env : Environment) (m : Manifest)
    (flags : List Binding) (artifact : String) : Config where
  mode := o.mode
  projectDir := project
  targetDir := targetDirFor project (env.overlay flags)
  target := (o.target <|> m.target).getD defaultTarget
  artifact
  resDir := project.resolve ((m.resDir.map Path.mk).getD defaultResDir)
  cargo := (o.cargo <|> (env.overlay flags).get? cargoKey).getD defaultCargo
  coverageDir := coverageDirFor project o (env.overlay flags) m
  flagsFile := flagsPath? project o env m
  extraEnv := flags
  optimize := optimizeFor o m

theorem settle_eq [Toml.Dialect] (d : Disk) (project : Path) (o : Overrides) (env : Environment)
    (m : Manifest) :
    settle d project o env m = (loadFlags d (flagsPath? project o env m)).bind fun flags =>
      (artifactFor d project o m).map (assemble project o env m flags) := by
  rw [settle]
  cases loadFlags d (flagsPath? project o env m) with
  | error e => rfl
  | ok flags => cases artifactFor d project o m <;> rfl

section Settling

variable {d other : Disk} {project : Path} {o : Overrides} {env env' : Environment} {m : Manifest}
  {flags flags' : List Binding}

theorem assemble_coverage (hmode : o.mode = .coverage)
    (henv : ∀ key, key ≠ targetDirKey → env'.get? key = env.get? key)
    (hflags : Flags.without targetDirKey flags' = Flags.without targetDirKey flags)
    (artifact : String) :
    (assemble project o env' m flags' artifact).active =
      (assemble project o env m flags artifact).active := by
  have hover (key : String) (hkey : key ≠ targetDirKey) :
      (env'.overlay flags').get? key = (env.overlay flags).get? key :=
    Environment.get?_overlay_congr (henv key hkey) (Flags.last?_of_without hflags hkey)
  have hcargo := hover cargoKey (by decide)
  have hcoverage := hover coverageDirKey (by decide)
  have hpath := flagsPath?_congr (henv flagsFileKey (by decide)) project o m
  simp only [active, assemble, hmode, hflags, hcargo, coverageDirFor, hcoverage, hpath]

theorem assemble_standard (hmode : o.mode = .standard)
    (henv : ∀ key, key ≠ coverageDirKey → env'.get? key = env.get? key) (dir : Option Path)
    (dir' : Option String) (artifact : String) :
    (assemble project { o with coverageDir := dir } env' { m with coverageDir := dir' } flags
        artifact).active = (assemble project o env m flags artifact).active := by
  have hover (key : String) (hkey : key ≠ coverageDirKey) :
      (env'.overlay flags).get? key = (env.overlay flags).get? key :=
    Environment.get?_overlay_congr (henv key hkey) rfl
  have hcargo := hover cargoKey (by decide)
  have htarget := hover targetDirKey (by decide)
  have hfile := henv flagsFileKey (by decide)
  simp only [active, assemble, hmode, hcargo, targetDirFor, htarget, flagsPath?, hfile]
  rfl

/-- Two runs of one step after another look the same if the first steps and then the second ones
do. -/
theorem map_bind_congr {ε α β γ δ : Type} {x x' : Except ε α} {f f' : α → Except ε β}
    {view : α → γ} {view' : β → δ} (h : x'.map view = x.map view)
    (hf : ∀ a a', x = .ok a → view a' = view a → (f' a').map view' = (f a).map view') :
    (x'.bind f').map view' = (x.bind f).map view' := by
  cases x with
  | error e =>
    cases x' with
    | error e' =>
      cases h
      rfl
    | ok a' => cases h
  | ok a =>
    cases x' with
    | error e' => cases h
    | ok a' => exact hf a a' rfl (Except.ok.inj h)

theorem settle_coverage [Toml.Dialect] (hmode : o.mode = .coverage)
    (henv : ∀ key, key ≠ targetDirKey → env'.get? key = env.get? key)
    (hload : ∀ p, (Flags.load other p).map (Flags.without targetDirKey) =
      (Flags.load d p).map (Flags.without targetDirKey))
    (hartifact : artifactFor other project o m = artifactFor d project o m) :
    (settle other project o env' m).map active = (settle d project o env m).map active := by
  have hflags : (loadFlags other (flagsPath? project o env m)).map (Flags.without targetDirKey) =
      (loadFlags d (flagsPath? project o env m)).map (Flags.without targetDirKey) := by
    cases flagsPath? project o env m with
    | none => rfl
    | some p => exact hload p
  rw [settle_eq, settle_eq, flagsPath?_congr (henv flagsFileKey (by decide)), hartifact]
  refine map_bind_congr hflags fun flags flags' _ hsame => ?_
  cases artifactFor d project o m with
  | error e => rfl
  | ok artifact => exact congrArg Except.ok (assemble_coverage hmode henv hsame artifact)

theorem settle_standard [Toml.Dialect] (hmode : o.mode = .standard)
    (henv : ∀ key, key ≠ coverageDirKey → env'.get? key = env.get? key)
    (hflags : loadFlags other (flagsPath? project o env m) =
      loadFlags d (flagsPath? project o env m))
    (hartifact : artifactFor other project o m = artifactFor d project o m) (dir : Option Path)
    (dir' : Option String) :
    (settle other project { o with coverageDir := dir } env' { m with coverageDir := dir' }).map
      active = (settle d project o env m).map active := by
  have hpath : flagsPath? project { o with coverageDir := dir } env'
      { m with coverageDir := dir' } = flagsPath? project o env m :=
    flagsPath?_congr (henv flagsFileKey (by decide)) project o m
  have hartifact' : artifactFor other project { o with coverageDir := dir }
      { m with coverageDir := dir' } = artifactFor d project o m := hartifact
  rw [settle_eq, settle_eq, hpath, hflags, hartifact']
  cases loadFlags d (flagsPath? project o env m) with
  | error e => rfl
  | ok flags =>
    cases artifactFor d project o m with
    | error e => rfl
    | ok artifact => exact congrArg Except.ok (assemble_standard hmode henv dir dir' artifact)

end Settling

section Reading

variable [Toml.Dialect] {d other : Disk} {project : Path} {o : Overrides}
  {env env' : Environment}

theorem manifestFor_of_readText
    (h : other.readText (manifestPath project o) = d.readText (manifestPath project o)) :
    manifestFor other project o = manifestFor d project o := by
  rw [manifestPath] at h
  rw [manifestFor, manifestFor]
  cases ho : o.manifest with
  | some p =>
    rw [ho] at h
    simp only [Manifest.load, h]
  | none =>
    rw [ho] at h
    simp only [Manifest.loadOrEmpty, h]

theorem manifestFor_of_text {text : String} (h : d.readText (manifestPath project o) = .ok text) :
    manifestFor d project o = Manifest.parse (manifestPath project o) text := by
  rw [manifestPath] at h ⊢
  rw [manifestFor]
  cases ho : o.manifest with
  | some p =>
    rw [ho] at h
    simp only [Manifest.load, h]
  | none =>
    rw [ho] at h
    simp only [Manifest.loadOrEmpty, h]

theorem artifactFor_of_readText
    (h : other.readText (project.join ⟨packageName⟩) = d.readText (project.join ⟨packageName⟩))
    (m : Manifest) : artifactFor other project o m = artifactFor d project o m := by
  rw [artifactFor, artifactFor, Package.loadArtifact, Package.loadArtifact, h]

theorem manifestFor_differ {loc : Location}
    (h : d.Revised Manifest.DifferInCoverageDir loc other) :
    (manifestFor other project o).map Manifest.core =
        (manifestFor d project o).map Manifest.core ∨
      ∃ e e', RefusedManifest d project o e ∧ RefusedManifest other project o e' ∧
        manifestFor d project o = .error e ∧ manifestFor other project o = .error e' := by
  rcases h.readText_cases (manifestPath project o) with heq | ⟨text, text', hdiffer, hread, hread'⟩
  · exact .inl (by rw [manifestFor_of_readText heq])
  · rw [manifestFor_of_text hread, manifestFor_of_text hread']
    rcases Manifest.parse_differ hdiffer (manifestPath project o) with hsame | ⟨hm, hm'⟩
    · exact .inl hsame
    · exact .inr ⟨_, _, ⟨text, hread, rfl⟩, ⟨text', hread', rfl⟩, hm, hm'⟩

theorem resolve_of_manifest_error {e : BuildError} (h : manifestFor d project o = .error e) :
    resolve d project o env = .error e := by
  rw [resolve, h]
  rfl

theorem resolve_coverage (hmode : o.mode = .coverage)
    (henv : ∀ key, key ≠ targetDirKey → env'.get? key = env.get? key)
    (hload : ∀ p, (Flags.load other p).map (Flags.without targetDirKey) =
      (Flags.load d p).map (Flags.without targetDirKey))
    (hmanifest : manifestFor other project o = manifestFor d project o)
    (hartifact : ∀ m, artifactFor other project o m = artifactFor d project o m) :
    (resolve other project o env').map active = (resolve d project o env).map active := by
  rw [resolve, resolve, hmanifest]
  cases manifestFor d project o with
  | error e => rfl
  | ok m => exact settle_coverage hmode henv hload (hartifact m)

theorem resolve_standard (hmode : o.mode = .standard)
    (henv : ∀ key, key ≠ coverageDirKey → env'.get? key = env.get? key)
    (hmanifest : (manifestFor other project o).map Manifest.core =
      (manifestFor d project o).map Manifest.core)
    (hflags : ∀ m, manifestFor d project o = .ok m →
      loadFlags other (flagsPath? project o env m) = loadFlags d (flagsPath? project o env m))
    (hartifact : ∀ m, artifactFor other project o m = artifactFor d project o m)
    (dir : Option Path) :
    (resolve other project { o with coverageDir := dir } env').map active =
      (resolve d project o env).map active := by
  refine map_bind_congr hmanifest fun m m' hm hcore => ?_
  rw [Manifest.eq_of_core hcore]
  exact settle_standard hmode henv (hflags m hm) (hartifact m) dir m'.coverageDir

end Reading

theorem map_plan {x x' : Except BuildError Config} (h : x'.map active = x.map active) :
    x'.map plan = x.map plan := by
  have hplan (x : Except BuildError Config) : (x.map active).map plan = x.map plan := by
    cases x with
    | error e => rfl
    | ok cfg => exact congrArg Except.ok (plan_active cfg)
  rw [← hplan, h, hplan]

/-- In coverage mode the plan does not depend on `CARGO_TARGET_DIR`, whether the environment or
the flags file sets it, and in standard mode it does not depend on the coverage directory that
the caller, the environment or the manifest gives. Nor does it then depend on them whether there
is a plan, and what is wrong if there is none, except that of two manifests that are refused each
is with the words for its own text. -/
theorem plan_ignores_inactive [Toml.Dialect] (d : Disk) (project : Path) (o : Overrides)
    (env env' : Environment) :
    (o.mode = .coverage → (∀ key, key ≠ "CARGO_TARGET_DIR" → env'.get? key = env.get? key) →
      (resolve d project o env').map plan = (resolve d project o env).map plan ∧
      ∀ other loc, d.Revised (Flags.DifferIn "CARGO_TARGET_DIR") loc other →
        d.locate (manifestPath project o) ≠ .ok loc →
        d.locate (project.join ⟨"Cargo.toml"⟩) ≠ .ok loc →
        (resolve other project o env').map plan = (resolve d project o env).map plan) ∧
    (o.mode = .standard → (∀ key, key ≠ "RESBUILD_COVERAGE_DIR" → env'.get? key = env.get? key) →
      ∀ dir,
        (resolve d project { o with coverageDir := dir } env').map plan =
          (resolve d project o env).map plan ∧
        ∀ other loc, d.Revised Manifest.DifferInCoverageDir loc other →
          (∀ m p, manifestFor d project o = .ok m → flagsPath? project o env m = some p →
            d.locate p ≠ .ok loc) →
          d.locate (project.join ⟨"Cargo.toml"⟩) ≠ .ok loc →
          let before := resolve d project o env
          let after := resolve other project { o with coverageDir := dir } env'
          after.map plan = before.map plan ∨
            ∃ e e', RefusedManifest d project o e ∧ RefusedManifest other project o e' ∧
              before = .error e ∧ after = .error e') := by
  refine ⟨fun hmode henv => ⟨?_, fun other loc hd hmanifest hpackage => ?_⟩,
    fun hmode henv dir => ⟨?_, fun other loc hd hflags hpackage => ?_⟩⟩
  · exact map_plan (resolve_coverage hmode henv (fun _ => rfl) rfl fun _ => rfl)
  · have hartifact := artifactFor_of_readText (o := o) (hd.readText_of_ne hpackage)
    exact map_plan (resolve_coverage hmode henv (Flags.load_differ hd)
      (manifestFor_of_readText (hd.readText_of_ne hmanifest)) hartifact)
  · exact map_plan (resolve_standard hmode henv rfl (fun _ _ => rfl) (fun _ => rfl) dir)
  · have hartifact := artifactFor_of_readText (o := o) (hd.readText_of_ne hpackage)
    intro before after
    rcases manifestFor_differ (o := o) hd with hmanifest | ⟨e, e', he, he', hm, hm'⟩
    · refine .inl (map_plan (resolve_standard hmode henv hmanifest (fun m hm => ?_) hartifact dir))
      cases hpath : flagsPath? project o env m with
      | none => rfl
      | some p => rw [loadFlags, loadFlags, Flags.load, Flags.load,
          hd.readText_of_ne (hflags m p hm hpath)]
    · exact .inr ⟨e, e', he, he', resolve_of_manifest_error hm, resolve_of_manifest_error hm'⟩

theorem parse_eq_single [Toml.Dialect] {text key s : String}
    (h : (Toml.Dialect.read? text).map (·.map fun e => (e.1, e.2.string?)) = some [(key, some s)]) :
    Toml.Dialect.read? text = some [(key, .string s)] := by
  obtain ⟨entries, hparse, hentries⟩ := Option.map_eq_some_iff.mp h
  obtain ⟨⟨name, value⟩, rfl, hentry⟩ := List.map_eq_singleton_iff.mp hentries
  obtain ⟨rfl, hvalue⟩ := Prod.mk.inj hentry
  cases value with
  | string s' =>
    cases hvalue
    exact hparse
  | integer | float | boolean | moment | array | table => cases hvalue

def sampleDisk (files : List (String × String)) : Disk :=
  ⟨files.foldl (fun fs f => fs.edit [] (.write f.1.toUTF8 f.2.toUTF8)) .empty, []⟩

def sampleOverrides (mode : Mode) : Overrides :=
  ⟨mode, none, some ⟨"flags"⟩, some "a", none, none, none, none⟩

theorem plan_ignores_inactive_sample :
    (let d := sampleDisk [("/p/flags", "A=1\nCARGO_TARGET_DIR=x")]
    let other := d.setFile (Location.ofPath ⟨"/p/flags"⟩) "A=1\nCARGO_TARGET_DIR='y z'".toUTF8
    let before := resolve d ⟨"/p"⟩ (sampleOverrides .coverage) ⟨[]⟩
    let after := resolve other ⟨"/p"⟩ (sampleOverrides .coverage) ⟨[("CARGO_TARGET_DIR", "/t")]⟩
    before.toOption.isSome = true ∧ after.map plan = before.map plan) ∧
    (let d := sampleDisk [("/p/flags", "A=1"), ("/p/resbuild.toml", "coverage_dir = 'c'")]
    let other := d.setFile (Location.ofPath ⟨"/p/resbuild.toml"⟩) "coverage_dir = 'k'".toUTF8
    let o := sampleOverrides .standard
    let before := resolve d ⟨"/p"⟩ o ⟨[]⟩
    let after := resolve other ⟨"/p"⟩ { o with coverageDir := some ⟨"/c"⟩ }
      ⟨[("RESBUILD_COVERAGE_DIR", "/e")]⟩
    before.toOption.isSome = true ∧ after.map plan = before.map plan) := by
  constructor
  · intro d other before after
    have hdiffer : Flags.DifferIn "CARGO_TARGET_DIR" "A=1\nCARGO_TARGET_DIR=x"
        "A=1\nCARGO_TARGET_DIR='y z'" :=
      .cons (.inl rfl) (.cons (.inr ⟨"x", "y z", rfl, rfl⟩) .nil)
    have hd : d.Revised (Flags.DifferIn "CARGO_TARGET_DIR") (Location.ofPath ⟨"/p/flags"⟩) other :=
      Disk.revised_setFile hdiffer (by decide +kernel)
    have hcoverage := (plan_ignores_inactive d ⟨"/p"⟩ (sampleOverrides .coverage) _ _).1 rfl
      fun key hkey => Environment.get?_cons_of_ne hkey "/t" []
    exact ⟨by decide +kernel, hcoverage.2 other _ hd (by decide +kernel) (by decide +kernel)⟩
  · intro d other o before after
    have hbefore : Toml.Dialect.read? "coverage_dir = 'c'" = some [("coverage_dir", .string "c")] :=
      parse_eq_single (by decide +kernel)
    have hafter : Toml.Dialect.read? "coverage_dir = 'k'" = some [("coverage_dir", .string "k")] :=
      parse_eq_single (by decide +kernel)
    have hdiffer : Manifest.DifferInCoverageDir "coverage_dir = 'c'" "coverage_dir = 'k'" := by
      refine ⟨_, _, hbefore, hafter, fun key hkey => ?_, .inr ⟨"c", rfl⟩, .inr ⟨"k", rfl⟩⟩
      have hne : (key == "coverage_dir") = false := by simpa using hkey
      rw [List.lookup_cons, List.lookup_cons, hne]
    have hd : d.Revised Manifest.DifferInCoverageDir (Location.ofPath ⟨"/p/resbuild.toml"⟩) other :=
      Disk.revised_setFile hdiffer (by decide +kernel)
    have hflags (m : Manifest) (p : Path) (h : flagsPath? ⟨"/p"⟩ o ⟨[]⟩ m = some p) :
        d.locate p ≠ .ok (Location.ofPath ⟨"/p/resbuild.toml"⟩) := by
      cases h
      decide +kernel
    have hstandard := (plan_ignores_inactive d ⟨"/p"⟩ o _ _).2 rfl
      (fun key hkey => Environment.get?_cons_of_ne hkey "/e" []) (some ⟨"/c"⟩)
    have hsettled : before.toOption.isSome = true := by decide +kernel
    rcases hstandard.2 other _ hd (fun m p _ => hflags m p) (by decide +kernel) with
      hsame | ⟨e, -, -, -, hbroken, -⟩
    · exact ⟨hsettled, hsame⟩
    · rw [show before = .error e from hbroken] at hsettled
      cases hsettled

end Config

end WasmBuild
