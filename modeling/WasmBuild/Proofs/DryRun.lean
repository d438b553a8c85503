import WasmBuild.Proofs.Executions

/-! A dry run beside the run that it tells of. Both settle the same configuration from the same
disk, so they fail alike until there is a plan; then the one tells the plan and the other goes
through its stages. -/

namespace WasmBuild

namespace World

theorem launches_tell_print (w : World) (channel : Channel) (text : String) :
    (w.tell [.print channel text]).launches = w.launches := by
  simp [tell, launches]

theorem site_tell_print (w : World) (channel : Channel) (text : String) :
    (w.tell [.print channel text]).site = w.site := by
  rw [site, launches_tell_print, tell_disk, site]

end World

namespace Plan

theorem isSome_optimize (backend : Backend) (cfg : Config) :
    (ofConfig backend cfg).optimize.isSome = cfg.optimize.enabled := by
  rw [ofConfig]
  cases cfg.optimize.enabled <;> rfl

/-- The text of a plan shows its commands and paths, a line for each. -/
theorem text_eq (plan : Plan) :
    plan.text =
      "mode:  " ++ plan.mode.name ++ "\n" ++
      "cwd:   " ++ plan.build.cwd.text ++ "\n" ++
      "build: " ++ plan.build.text ++ "\n" ++
      "copy:  " ++ plan.source.text ++ " -> " ++ plan.destination.text ++ "\n" ++
      plan.optimize.elim "" fun c => "opt:   " ++ c.text ++ "\n" := by
  rw [text, lines]
  cases plan.optimize with
  | none =>
    simp only [List.append_nil, List.map_cons, List.map_nil, String.join_cons, String.join_nil,
      Option.elim, String.append_assoc]
  | some c =>
    simp only [List.cons_append, List.nil_append, List.map_cons, List.map_nil, String.join_cons,
      String.join_nil, Option.elim, String.append_assoc, String.append_empty]

end Plan

namespace Request

variable [Toml.Dialect] {tools : Tools} {r : Request} {cwd : Path} {env : Environment} {w : World}
  {cfg : Config}

theorem execute_of_configuration_error {f : Failure}
    (h : r.configuration cwd env w.disk = .error f) :
    r.execute tools cwd env w = (.error f, w.tell (r.notes cwd env w.disk)) := by
  rw [execute_apply, h]

theorem execute_of_dryRun (h : r.configuration cwd env w.disk = .ok cfg) (hd : r.dryRun = true) :
    r.execute tools cwd env w =
      (.ok (), w.tell (r.notes cwd env w.disk ++
        [.print .output (Plan.ofConfig (Backend.ofMode cfg.mode) cfg).text])) := by
  rw [execute_apply, h, ← World.tell_tell]
  exact conclude_of_dryRun hd

/-- A request that is no dry run tells what comes of its build. -/
theorem execute_of_not_dryRun (h : r.configuration cwd env w.disk = .ok cfg)
    (hd : r.dryRun = false) :
    r.execute tools cwd env w =
      match Build.run tools (Backend.ofMode cfg.mode) cfg (w.tell (r.notes cwd env w.disk)) with
      | (.ok report, left) => (.ok (), left.tell [.print .errors (success report)])
      | (.error e, left) => (.error (.ofError e), left) := by
  rw [execute_apply, h]
  exact conclude_of_not_dryRun hd

theorem execute_performs (h : r.configuration cwd env w.disk = .ok cfg) (hd : r.dryRun = false) :
    let performed := Stage.performAll tools w.site
      (Plan.ofConfig (Backend.ofMode cfg.mode) cfg).stages
    (r.execute tools cwd env w).1 = performed.1.mapError Failure.ofError ∧
      (r.execute tools cwd env w).2.site = performed.2 := by
  intro performed
  have hsite : (w.tell (r.notes cwd env w.disk)).site = w.site :=
    World.site_tell_logs (isLog_notes r cwd env w.disk)
  have hrun := Build.run_performs tools (Backend.ofMode cfg.mode) cfg
    (w.tell (r.notes cwd env w.disk))
  rw [hsite] at hrun
  rw [execute_of_not_dryRun h hd]
  rcases hb : Build.run tools (Backend.ofMode cfg.mode) cfg (w.tell (r.notes cwd env w.disk))
    with ⟨e | report, left⟩
  · rw [hb] at hrun
    exact ⟨congrArg (fun p => p.1.mapError Failure.ofError) hrun, congrArg Prod.snd hrun⟩
  · rw [hb] at hrun
    exact ⟨congrArg (fun p => p.1.mapError Failure.ofError) hrun,
      (World.site_tell_print left .errors (success report)).trans (congrArg Prod.snd hrun)⟩

/-- A dry run launches nothing and leaves the disk as it is. It fails exactly when the project
is not found or its configuration is not settled, and then the run it stands for fails in the
same way. Otherwise it shows the commands and paths of the plan whose stages that run goes
through. -/
theorem dryRun_tells_execution (tools : Tools) (r : Request) (cwd : Path) (env : Environment)
    (w : World) :
    let dry := { r with dryRun := true }.execute tools cwd env w
    let real := { r with dryRun := false }.execute tools cwd env w
    dry.2.disk = w.disk ∧ dry.2.launches = w.launches ∧
    (∀ f, dry.1 = .error f ↔
      (∃ e, r.project cwd w.disk = .error e ∧ f = .ofError e) ∨
        ∃ project e, r.project cwd w.disk = .ok project ∧
          Config.resolve w.disk project r.overrides env = .error e ∧
          f = (Failure.ofError e).within ("configuration de " ++ project.text)) ∧
    (∀ f, dry.1 = .error f → real = dry) ∧
    (dry.1 = .ok () →
      ∃ project cfg notes, r.project cwd w.disk = .ok project ∧
        Config.resolve w.disk project r.overrides env = .ok cfg ∧
        (∀ e ∈ notes, e.IsLog) ∧
        let plan := Plan.ofConfig (Backend.ofMode cfg.mode) cfg
        let performed := Stage.performAll tools w.site plan.stages
        let shown :=
          "mode:  " ++ plan.mode.name ++ "\n" ++
          "cwd:   " ++ plan.build.cwd.text ++ "\n" ++
          "build: " ++ plan.build.text ++ "\n" ++
          "copy:  " ++ plan.source.text ++ " -> " ++ plan.destination.text ++ "\n" ++
          plan.optimize.elim "" fun c => "opt:   " ++ c.text ++ "\n"
        dry.2.trace = w.trace ++ notes ++ [.print .output shown] ∧
        plan.optimize.isSome = cfg.optimize.enabled ∧
        real.1 = performed.1.mapError Failure.ofError ∧ real.2.site = performed.2 ∧
        ∃ tried, real.2.launches = w.launches ++ plan.build :: tried ∧
          tried <+: plan.optimize.toList) := by
  intro dry real
  have hnotes : ∀ e ∈ r.notes cwd env w.disk, e.IsLog := isLog_notes r cwd env w.disk
  cases hc : r.configuration cwd env w.disk with
  | error f =>
    have hdry : dry = (.error f, w.tell (r.notes cwd env w.disk)) :=
      execute_of_configuration_error hc
    have hreal : real = (.error f, w.tell (r.notes cwd env w.disk)) :=
      execute_of_configuration_error hc
    refine ⟨by rw [hdry, World.tell_disk], by rw [hdry, World.launches_tell_logs hnotes],
      fun g => ?_, fun g _ => hreal.trans hdry.symm, fun hok => ?_⟩
    · rw [hdry, ← configuration_eq_error_iff, hc, Except.error.injEq, Except.error.injEq]
    · rw [hdry] at hok
      cases hok
  | ok cfg =>
    let plan := Plan.ofConfig (Backend.ofMode cfg.mode) cfg
    have hdry : dry =
        (.ok (), w.tell (r.notes cwd env w.disk ++ [.print .output plan.text])) :=
      execute_of_dryRun hc rfl
    have hreal : real.1 = (Stage.performAll tools w.site plan.stages).1.mapError Failure.ofError ∧
        real.2.site = (Stage.performAll tools w.site plan.stages).2 :=
      execute_performs hc rfl
    obtain ⟨project, hp, hcfg⟩ := configuration_eq_ok_iff.mp hc
    refine ⟨by rw [hdry, World.tell_disk], ?_, fun f => ?_, fun f hf => ?_, fun _ => ?_⟩
    · rw [hdry, ← World.tell_tell, World.launches_tell_print, World.launches_tell_logs hnotes]
    · rw [hdry, ← configuration_eq_error_iff, hc]
      simp
    · rw [hdry] at hf
      cases hf
    · obtain ⟨tried, htried, hprefix, -⟩ := plan.exists_tried tools w.site
      refine ⟨project, cfg, r.notes cwd env w.disk, hp, hcfg, hnotes, ?_, ?_, hreal.1, hreal.2,
        tried, ?_, hprefix⟩
      · rw [hdry, World.tell, List.append_assoc, plan.text_eq]
      · exact Plan.isSome_optimize (Backend.ofMode cfg.mode) cfg
      · exact (congrArg Site.tried hreal.2).trans htried

end Request

end WasmBuild
