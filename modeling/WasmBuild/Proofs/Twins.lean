import WasmBuild.Proofs.Inheritance
import WasmBuild.Proofs.Lookups
import WasmBuild.Proofs.Statuses

/-! Runs with tools that do the same, but may take note of different variables. What is seen of
the runs from outside is the same. -/

namespace WasmBuild

section Unseen

/-- A tool as it was started, without the variables that it took note of. -/
def Call.unseen (c : Call) : Call := { c with seen := [] }

def Outcome.unseen (o : Outcome) : Outcome := { o with call := o.call.unseen }

def Event.unseen : Event → Event
  | .ran call printed => .ran call.unseen printed
  | e => e

def World.unseen (w : World) : World := { w with trace := w.trace.map Event.unseen }

theorem Event.onChannel_unseen (channel : Channel) (e : Event) :
    e.unseen.onChannel channel = e.onChannel channel := by
  cases e <;> rfl

namespace World

variable {w w' : World}

theorem disk_unseen (w : World) : w.unseen.disk = w.disk := rfl

theorem unseen_tell (w : World) (events : List Event) :
    (w.tell events).unseen = w.unseen.tell (events.map Event.unseen) := by
  simp only [unseen, tell, List.map_append]

theorem launches_unseen (w : World) : w.unseen.launches = w.launches := by
  rw [launches, launches, unseen, List.filterMap_map]
  refine List.filterMap_congr fun e _ => ?_
  cases e <;> rfl

theorem disk_eq_of_unseen (h : w'.unseen = w.unseen) : w'.disk = w.disk := by
  rw [← disk_unseen, h, disk_unseen]

theorem launches_eq_of_unseen (h : w'.unseen = w.unseen) : w'.launches = w.launches := by
  rw [← launches_unseen, h, launches_unseen]

/-- The tools that have run, with their arguments and where they were started. -/
def calls (w : World) : List (String × List String × Location) :=
  w.trace.filterMap fun
    | .ran call _ => some (call.tool, call.args, call.cwd)
    | _ => none

theorem calls_unseen (w : World) : w.unseen.calls = w.calls := by
  rw [calls, calls, unseen, List.filterMap_map]
  refine List.filterMap_congr fun e _ => ?_
  cases e <;> rfl

theorem calls_eq_of_unseen (h : w'.unseen = w.unseen) : w'.calls = w.calls := by
  rw [← calls_unseen, h, calls_unseen]

theorem onChannel_unseen (w : World) (channel : Channel) :
    w.unseen.onChannel channel = w.onChannel channel := by
  have hevents : w.unseen.trace.map (Event.onChannel channel) =
      w.trace.map (Event.onChannel channel) := by
    rw [unseen, List.map_map]
    exact List.map_congr_left fun e _ => e.onChannel_unseen channel
  rw [onChannel, onChannel, hevents]

theorem onChannel_eq_of_unseen (h : w'.unseen = w.unseen) (channel : Channel) :
    w'.onChannel channel = w.onChannel channel := by
  rw [← onChannel_unseen, h, onChannel_unseen]

theorem unseen_tell_eq (h : w'.unseen = w.unseen) {events events' : List Event}
    (hevents : events'.map Event.unseen = events.map Event.unseen) :
    (w'.tell events').unseen = (w.tell events).unseen := by
  rw [unseen_tell, unseen_tell, h, hevents]

end World

end Unseen

/-- Tools that do the same with every command whose variables have proper names, apart from the
variables of which they take note. -/
def Tools.Alike (tools tools' : Tools) : Prop :=
  ∀ earlier d c, (∀ b ∈ c.env, Flags.isIdentifier b.1.toList = true) →
    (tools' earlier d c).map Outcome.unseen = (tools earlier d c).map Outcome.unseen

/-- Parts of runs that do the same in worlds that look the same. -/
def Run.Twin {ε α : Type} (x x' : Run ε α) : Prop :=
  ∀ w w', w'.unseen = w.unseen → (x' w').1 = (x w).1 ∧ (x' w').2.unseen = (x w).2.unseen

namespace Run.Twin

variable {ε δ α β : Type}

theorem pure (a : α) : Twin (Pure.pure a : Run ε α) (Pure.pure a) := Keeps.pure a

theorem emit (events : List Event) : Twin (Run.emit events : Run ε Unit) (Run.emit events) :=
  fun _ _ h => ⟨rfl, World.unseen_tell_eq h rfl⟩

theorem bind {x x' : Run ε α} {f f' : α → Run ε β} (hx : Twin x x')
    (hf : ∀ w a left, x w = (.ok a, left) → Twin (f a) (f' a)) : Twin (x >>= f) (x' >>= f') :=
  Keeps.bind hx hf

theorem within (around : ε → δ) {x x' : Run ε α} (hx : Twin x x') :
    Twin (Run.within around x) (Run.within around x') := Keeps.within around hx

theorem ask (question : Disk → Except ε α) : Twin (Run.ask question) (Run.ask question) :=
  Keeps.ask (fun _ _ => World.disk_eq_of_unseen) question

theorem act (change : Disk → Except ε α × Disk) : Twin (Run.act change) (Run.act change) :=
  Keeps.act (fun _ _ => World.disk_eq_of_unseen)
    (fun _ _ disk h => congrArg (World.mk disk) (congrArg World.trace h)) change

theorem command {tools tools' : Tools} (htools : tools.Alike tools') {c : Command}
    (hc : ∀ b ∈ c.env, Flags.isIdentifier b.1.toList = true) :
    Twin (c.run tools) (c.run tools') := by
  intro w w' h
  have hsame := htools w.launches w.disk c hc
  have htrace : w'.trace.map Event.unseen = w.trace.map Event.unseen := congrArg World.trace h
  rw [Command.run_apply, Command.run_apply, Command.attempt, Command.attempt, Command.seen,
    Command.seen, World.launches_eq_of_unseen h, World.disk_eq_of_unseen h]
  cases hrun : tools w.launches w.disk c with
  | error e =>
    cases hrun' : tools' w.launches w.disk c with
    | error e' =>
      rw [hrun, hrun'] at hsame
      cases hsame
      exact ⟨rfl, by simp only [World.unseen, List.map_append, htrace]⟩
    | ok outcome' =>
      rw [hrun, hrun'] at hsame
      cases hsame
  | ok outcome =>
    cases hrun' : tools' w.launches w.disk c with
    | error e' =>
      rw [hrun, hrun'] at hsame
      cases hsame
    | ok outcome' =>
      rw [hrun, hrun'] at hsame
      obtain ⟨hcall, htree, hprinted, hending⟩ := Outcome.mk.inj (Except.ok.inj hsame)
      refine ⟨congrArg (Ending.check · c) hending, ?_⟩
      simp only [World.unseen, List.map_append, htrace, List.map_cons, List.map_nil, Event.unseen,
        hcall, htree, hprinted]

end Run.Twin

theorem Build.run_twin {tools tools' : Tools} {backend : Backend} {cfg : Config}
    (htools : tools.Alike tools')
    (hc : ∀ b ∈ (backend.command cfg).env, Flags.isIdentifier b.1.toList = true) :
    Run.Twin (run tools backend cfg) (run tools' backend cfg) := by
  have hoptimize : ∀ b ∈ (cfg.optimize.command cfg.destination cfg.projectDir).env,
      Flags.isIdentifier b.1.toList = true := nofun
  exact run_related .pure .bind (fun _ _ _ _ => .emit _) (.command htools hc) (.ask _) (.act _)
    (.command htools hoptimize) (.ask _)

namespace Config

variable {d : Disk} {cfg : Config}

theorem isIdentifier_of_loadFlags {flagsFile : Option Path} {vars : List Binding}
    (h : loadFlags d flagsFile = .ok vars) :
    ∀ b ∈ vars, Flags.isIdentifier b.1.toList = true := by
  intro b hb
  cases flagsFile with
  | none =>
    cases h
    cases hb
  | some p =>
    obtain ⟨text, all, -, hall, hvars⟩ := Flags.load_eq_ok_iff.mp h
    exact (Flags.storable_of_parse (Flags.parse_eq_ok_iff.mpr ⟨all, hall, hvars⟩)).key b hb

theorem isIdentifier_command [Toml.Dialect] {project : Path} {o : Overrides} {env : Environment}
    (h : resolve d project o env = .ok cfg) :
    ∀ b ∈ ((Backend.ofMode cfg.mode).command cfg).env,
      Flags.isIdentifier b.1.toList = true := by
  intro b hb
  obtain ⟨m, -, hsettle⟩ := resolve_eq_ok_iff.mp h
  obtain ⟨flags, artifact, hflags, -, hcfg⟩ := settle_eq_ok_iff.mp hsettle
  have hextra : cfg.extraEnv = flags := by rw [hcfg]
  rcases Backend.key_env hb with hkey | hkey | hkey
  · rw [hkey]
    decide
  · rw [hkey]
    decide
  · exact isIdentifier_of_loadFlags hflags b (hextra ▸ hkey)

end Config

namespace Request

variable {tools tools' : Tools} {r : Request} {cwd : Path} {env env' : Environment}

theorem conclude_twin [Toml.Dialect] {d : Disk} {cfg : Config} (htools : tools.Alike tools')
    (h : r.configuration cwd env d = .ok cfg) :
    Run.Twin (r.conclude tools cfg) (r.conclude tools' cfg) := by
  rw [conclude, conclude]
  cases r.dryRun with
  | true => exact .emit _
  | false =>
    obtain ⟨project, -, hresolve⟩ := configuration_eq_ok_iff.mp h
    have hc := Config.isIdentifier_command hresolve
    exact .bind (.within _ (Build.run_twin htools hc)) fun _ _ _ _ => .emit _

theorem configuration_congr [Toml.Dialect] (h : ∀ key, env'.get? key = env.get? key)
    (r : Request) (cwd : Path) (d : Disk) :
    r.configuration cwd env' d = r.configuration cwd env d := by
  simp only [configuration, Config.resolve_congr h]

theorem notes_congr [Toml.Dialect] (h : ∀ key, env'.get? key = env.get? key) (r : Request)
    (cwd : Path) (d : Disk) : r.notes cwd env' d = r.notes cwd env d := by
  simp only [notes, projectNotes, Config.notes_congr h]

/-- A request does the same for environments that cannot be told apart. -/
theorem execute_twin [Toml.Dialect] (htools : tools.Alike tools')
    (henv : ∀ key, env'.get? key = env.get? key) (r : Request) (cwd : Path) :
    Run.Twin (r.execute tools cwd env) (r.execute tools' cwd env') := by
  intro w w' h
  rw [execute_apply, execute_apply, World.disk_eq_of_unseen h, configuration_congr henv,
    notes_congr henv]
  have htold : (w'.tell (r.notes cwd env w.disk)).unseen =
      (w.tell (r.notes cwd env w.disk)).unseen :=
    World.unseen_tell_eq h rfl
  cases hc : r.configuration cwd env w.disk with
  | error f => exact ⟨rfl, htold⟩
  | ok cfg => exact conclude_twin htools hc _ _ htold

theorem carryOut_twin [Toml.Dialect] (htools : tools.Alike tools')
    (henv : ∀ key, env'.get? key = env.get? key) (r : Request) (cwd : Path) {w w' : World}
    (h : w'.unseen = w.unseen) :
    (r.carryOut tools' cwd env' w').1 = (r.carryOut tools cwd env w).1 ∧
      (r.carryOut tools' cwd env' w').2.unseen = (r.carryOut tools cwd env w).2.unseen := by
  obtain ⟨hresult, hleft⟩ := execute_twin htools henv r cwd w w' h
  cases hx : (r.execute tools cwd env w).1 with
  | ok =>
    rw [carryOut_of_ok hx, carryOut_of_ok (hresult.trans hx)]
    exact ⟨rfl, hleft⟩
  | error f =>
    rw [carryOut_of_error hx, carryOut_of_error (hresult.trans hx)]
    exact ⟨rfl, World.unseen_tell_eq hleft rfl⟩

end Request

/-- An invocation does the same for environments that cannot be told apart. -/
theorem Invocation.carryOut_twin [Toml.Dialect] {tools tools' : Tools} {env env' : Environment}
    (htools : tools.Alike tools') (henv : ∀ key, env'.get? key = env.get? key) (r : Request)
    (w : World) :
    (carryOut tools' r env' w).1 = (carryOut tools r env w).1 ∧
      (carryOut tools' r env' w).2.unseen = (carryOut tools r env w).2.unseen := by
  rw [carryOut, carryOut]
  cases workingDir w.disk with
  | error f => exact ⟨rfl, rfl⟩
  | ok cwd => exact Request.carryOut_twin htools henv r cwd rfl

end WasmBuild
