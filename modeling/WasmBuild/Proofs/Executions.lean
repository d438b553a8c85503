import WasmBuild.Execution
import WasmBuild.Proofs.FailFast

/-! An execution in its parts. The project is found and its configuration settled, which only
reads the disk and writes to the log; then the plan is told, or it is run. -/

namespace WasmBuild

section MapError

variable {ε δ α : Type} (around : ε → δ)

theorem mapError_ok (a : α) : (Except.ok a : Except ε α).mapError around = .ok a := rfl

theorem mapError_error (e : ε) :
    (Except.error e : Except ε α).mapError around = .error (around e) := rfl

end MapError

def Event.IsLog (e : Event) : Prop := ∃ record, e = .log record

namespace World

/-- Nothing is done to a world but that more is told of it. -/
def tell (w : World) (events : List Event) : World := { w with trace := w.trace ++ events }

variable {w : World} {events : List Event}

theorem tell_disk (w : World) (events : List Event) : (w.tell events).disk = w.disk := rfl

theorem tell_tell (w : World) (first last : List Event) :
    (w.tell first).tell last = w.tell (first ++ last) := by
  simp only [tell, List.append_assoc]

theorem tell_nil (w : World) : w.tell [] = w := by
  simp only [tell, List.append_nil]

theorem launches_tell (w : World) (events : List Event) :
    (w.tell events).launches = w.launches ++ (⟨w.disk, events⟩ : World).launches :=
  List.filterMap_append

theorem launches_of_logs (h : ∀ e ∈ events, e.IsLog) (d : Disk) :
    (⟨d, events⟩ : World).launches = [] := by
  refine List.filterMap_eq_nil_iff.mpr fun e hm => ?_
  obtain ⟨record, rfl⟩ := h e hm
  rfl

theorem launches_tell_logs (h : ∀ e ∈ events, e.IsLog) : (w.tell events).launches = w.launches := by
  rw [launches_tell, launches_of_logs h, List.append_nil]

theorem site_tell_logs (h : ∀ e ∈ events, e.IsLog) : (w.tell events).site = w.site := by
  rw [site, launches_tell_logs h]
  rfl

end World

namespace Run

variable {ε δ α : Type}

theorem within_apply (around : ε → δ) (run : Run ε α) (w : World) :
    Run.within around run w = ((run w).1.mapError around, (run w).2) := rfl

theorem Keeps.within {E : World → World → Prop} (around : ε → δ) {x x' : Run ε α}
    (hx : Keeps E x x') : Keeps E (Run.within around x) (Run.within around x') := by
  intro w w' h
  obtain ⟨hresult, hleft⟩ := hx w w' h
  rw [within_apply, within_apply, hresult]
  exact ⟨rfl, hleft⟩

end Run

theorem Project.choose_none (d : Disk) (cwd : Path) :
    Project.choose d none cwd =
      match cwd.ancestors.find? (Project.isMarked d) with
      | some dir => .ok dir
      | none => .error (.projectNotFound cwd) := by
  delta choose
  rfl

namespace Config

variable [Toml.Dialect] {project : Path} {o : Overrides} {env : Environment}

/-- What is told while a configuration is settled. -/
def notes (d : Disk) (project : Path) (o : Overrides) (env : Environment) : List Event :=
  match manifestFor d project o with
  | .ok m => (flagsPath? project o env m).toList.map fun p =>
      .log ⟨.debug, logTarget, "flags partagés: " ++ p.text⟩
  | .error _ => []

theorem isLog_notes (d : Disk) (project : Path) (o : Overrides) (env : Environment) :
    ∀ e ∈ notes d project o env, e.IsLog := by
  intro e hm
  unfold notes at hm
  split at hm
  · obtain ⟨p, -, rfl⟩ := List.mem_map.mp hm
    exact ⟨_, rfl⟩
  · cases hm

theorem configure_apply (project : Path) (o : Overrides) (env : Environment) (w : World) :
    configure project o env w =
      (resolve w.disk project o env, w.tell (notes w.disk project o env)) := by
  rw [configure, Run.bind_apply, Run.ask_apply, resolve, notes]
  cases hm : manifestFor w.disk project o with
  | error e => exact Prod.ext rfl (World.tell_nil w).symm
  | ok m =>
    dsimp only
    cases hp : flagsPath? project o env m with
    | none =>
      dsimp only
      rw [Run.ask_apply]
      exact Prod.ext rfl (World.tell_nil w).symm
    | some p =>
      dsimp only
      rw [Run.bind_apply, Run.log_apply]
      dsimp only
      rw [Run.ask_apply]
      rfl

end Config

namespace Request

variable {tools : Tools} {r : Request} {cwd : Path} {env : Environment} {w : World} {d : Disk}

/-- What is left to do once the configuration is settled. -/
def conclude (tools : Tools) (r : Request) (cfg : Config) : Run Failure Unit := do
  let backend := Backend.ofMode cfg.mode
  if r.dryRun then
    Run.print .output (Plan.ofConfig backend cfg).text
  else
    let report ← Run.within Failure.ofError (Build.run tools backend cfg)
    Run.print .errors (success report)

theorem conclude_of_dryRun {cfg : Config} (h : r.dryRun = true) :
    r.conclude tools cfg w =
      (.ok (), w.tell [.print .output (Plan.ofConfig (Backend.ofMode cfg.mode) cfg).text]) := by
  rw [conclude, h]
  rfl

theorem conclude_of_not_dryRun {cfg : Config} (h : r.dryRun = false) :
    r.conclude tools cfg w =
      match Build.run tools (Backend.ofMode cfg.mode) cfg w with
      | (.ok report, left) => (.ok (), left.tell [.print .errors (success report)])
      | (.error e, left) => (.error (.ofError e), left) := by
  rw [conclude, h, if_neg (by decide), Run.bind_apply, Run.within_apply]
  rcases Build.run tools (Backend.ofMode cfg.mode) cfg w with ⟨e | report, left⟩
  · rfl
  · rfl

variable [Toml.Dialect]

/-- The configuration for a request, or why there is none. -/
def configuration (r : Request) (cwd : Path) (env : Environment) (d : Disk) :
    Except Failure Config :=
  match r.project cwd d with
  | .error e => .error (.ofError e)
  | .ok project =>
    (Config.resolve d project r.overrides env).mapError fun e =>
      (Failure.ofError e).within ("configuration de " ++ project.text)

/-- What is told of arguments without effect. -/
def ignoredNotes (r : Request) : List Event :=
  if r.ignored.isEmpty then []
  else [.log ⟨.debug, logTarget, "arguments ignorés: " ++ Text.listed r.ignored⟩]

def projectNotes (r : Request) (cwd : Path) (env : Environment) (d : Disk) : List Event :=
  match r.project cwd d with
  | .ok project => Config.notes d project r.overrides env
  | .error _ => []

/-- What is told before the build. -/
def notes (r : Request) (cwd : Path) (env : Environment) (d : Disk) : List Event :=
  r.ignoredNotes ++ r.projectNotes cwd env d

theorem isLog_notes (r : Request) (cwd : Path) (env : Environment) (d : Disk) :
    ∀ e ∈ r.notes cwd env d, e.IsLog := by
  intro e hm
  rcases List.mem_append.mp hm with hm | hm
  · rw [ignoredNotes] at hm
    split at hm
    · cases hm
    · exact ⟨_, List.mem_singleton.mp hm⟩
  · unfold projectNotes at hm
    split at hm
    · exact Config.isLog_notes _ _ _ _ e hm
    · cases hm

theorem configuration_eq_error_iff {f : Failure} :
    r.configuration cwd env d = .error f ↔
      (∃ e, r.project cwd d = .error e ∧ f = .ofError e) ∨
        ∃ project e, r.project cwd d = .ok project ∧
          Config.resolve d project r.overrides env = .error e ∧
          f = (Failure.ofError e).within ("configuration de " ++ project.text) := by
  unfold configuration
  cases hp : r.project cwd d with
  | error e => simp [eq_comm]
  | ok project =>
    cases hc : Config.resolve d project r.overrides env with
    | error e => simp [mapError_error, hc, eq_comm]
    | ok cfg => simp [mapError_ok, hc]

theorem configuration_eq_ok_iff {cfg : Config} :
    r.configuration cwd env d = .ok cfg ↔
      ∃ project, r.project cwd d = .ok project ∧
        Config.resolve d project r.overrides env = .ok cfg := by
  unfold configuration
  cases hp : r.project cwd d with
  | error e => simp
  | ok project =>
    cases hc : Config.resolve d project r.overrides env with
    | error e => simp [mapError_error, hc]
    | ok cfg => simp [mapError_ok, hc]

/-- What is left to do once it is told which arguments have no effect. -/
def proceed (tools : Tools) (r : Request) (cwd : Path) (env : Environment) : Run Failure Unit := do
  let project ← Run.within Failure.ofError (Run.ask (r.project cwd))
  let cfg ← Run.within (fun e => (Failure.ofError e).within ("configuration de " ++ project.text))
    (Config.configure project r.overrides env)
  r.conclude tools cfg

theorem proceed_apply (tools : Tools) (r : Request) (cwd : Path) (env : Environment) (w : World) :
    r.proceed tools cwd env w =
      match r.configuration cwd env w.disk with
      | .error f => (.error f, w.tell (r.projectNotes cwd env w.disk))
      | .ok cfg => r.conclude tools cfg (w.tell (r.projectNotes cwd env w.disk)) := by
  rw [proceed, configuration, projectNotes, Run.bind_apply, Run.within_apply, Run.ask_apply]
  cases hp : r.project cwd w.disk with
  | error e => exact Prod.ext rfl (World.tell_nil w).symm
  | ok project =>
    rw [mapError_ok]
    dsimp only
    rw [Run.bind_apply, Run.within_apply, Config.configure_apply]
    cases hc : Config.resolve w.disk project r.overrides env with
    | error e => rfl
    | ok cfg => rfl

theorem execute_apply (tools : Tools) (r : Request) (cwd : Path) (env : Environment) (w : World) :
    r.execute tools cwd env w =
      match r.configuration cwd env w.disk with
      | .error f => (.error f, w.tell (r.notes cwd env w.disk))
      | .ok cfg => r.conclude tools cfg (w.tell (r.notes cwd env w.disk)) := by
  have hproceed : r.execute tools cwd env w = r.proceed tools cwd env (w.tell r.ignoredNotes) := by
    rw [execute, ignoredNotes]
    cases r.ignored.isEmpty with
    | true => rw [if_pos rfl, World.tell_nil]; rfl
    | false => rfl
  rw [hproceed, proceed_apply, World.tell_tell, World.tell_disk, notes]

end Request

end WasmBuild
