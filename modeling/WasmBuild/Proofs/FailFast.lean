import WasmBuild.Proofs.Stages

/-! A run keeps to its plan. The commands that it tries are those of the plan, in order and
up to the first failure, and a build without an artifact leaves the disk as the build tool
has left it. -/

namespace WasmBuild

namespace Plan

/-- The build tool has ended with status 0 and has left a regular file as the artifact, which was
copied to where it belongs. -/
def Delivers (tools : Tools) (plan : Plan) (s : Site) : Prop :=
  ∃ outcome delivery disk, tools s.tried s.disk plan.build = .ok outcome ∧
    outcome.ending = .exited 0 ∧
    ({ s.disk with tree := outcome.tree } : Disk).isFile plan.source = true ∧
    ({ s.disk with tree := outcome.tree } : Disk).deliver plan.source plan.destination =
      (.ok delivery, disk)

variable {tools : Tools} {plan : Plan} {s : Site}

theorem tried_finish (s : Site) :
    (Stage.performAll tools s plan.finish).2.tried = s.tried ++ plan.optimize.toList := by
  rw [finish]
  cases plan.optimize with
  | none => exact (List.append_nil _).symm
  | some c =>
    rcases (Stage.launch c).passes_or_fails tools s with ⟨left, hpasses⟩ | ⟨e, hfails⟩
    · have htried : left.tried = s.tried ++ [c] := hpasses.tried ▸ Stage.tried_launch tools s c
      rw [hpasses.performAll_cons, Option.toList_some, ← htried]
      rcases (Stage.measure plan.destination).passes_or_fails tools left with ⟨_, hm⟩ | ⟨e, hm⟩
      · rw [hm.performAll_cons, Stage.performAll, hm.tried, Stage.tried_measure]
      · rw [hm.performAll_cons, Stage.tried_measure]
    · rw [hfails.performAll_cons, Stage.tried_launch, Option.toList_some]

theorem tried_of_delivers (h : plan.Delivers tools s) :
    (Stage.performAll tools s plan.stages).2.tried =
      s.tried ++ plan.build :: plan.optimize.toList := by
  obtain ⟨outcome, delivery, disk, hstarts, hends, hfile, hdeliver⟩ := h
  let built : Site := ⟨{ s.disk with tree := outcome.tree }, s.tried ++ [plan.build]⟩
  have hbuilt : (Stage.launch plan.build).Passes tools s built := .launch hstarts hends
  have hcheck : (Stage.check plan.source).Passes tools built built := .check hfile
  have hcopied : (Stage.copy plan.source plan.destination).Passes tools built
      ⟨disk, s.tried ++ [plan.build]⟩ := .copy hdeliver
  rw [stages, hbuilt.performAll_cons, hcheck.performAll_cons, hcopied.performAll_cons,
    tried_finish, List.append_assoc, List.singleton_append]

theorem tried_of_not_delivers (h : ¬ plan.Delivers tools s) :
    (Stage.performAll tools s plan.stages).2.tried = s.tried ++ [plan.build] := by
  rw [stages]
  rcases (Stage.launch plan.build).passes_or_fails tools s with ⟨built, hbuilt⟩ | ⟨e, hfails⟩
  · have htried := hbuilt.tried.trans (Stage.tried_launch tools s plan.build)
    rw [hbuilt.performAll_cons, ← htried]
    rcases (Stage.check plan.source).passes_or_fails tools built with ⟨_, hcheck⟩ | ⟨e, hfails⟩
    · rw [hcheck.performAll_cons]
      rcases (Stage.copy plan.source plan.destination).passes_or_fails tools built with
        ⟨_, hcopied⟩ | ⟨e, hfails⟩
      · cases hbuilt with
        | launch hstarts hends =>
          cases hcheck with
          | check hfile =>
            cases hcopied with
            | copy hdeliver => exact absurd ⟨_, _, _, hstarts, hends, hfile, hdeliver⟩ h
      · cases hcheck
        rw [hfails.performAll_cons, Stage.tried_copy]
    · rw [hfails.performAll_cons, Stage.tried_check]
  · rw [hfails.performAll_cons, Stage.tried_launch]

/-- The optimize command is tried after the build command exactly when the artifact was
delivered. -/
theorem exists_tried (tools : Tools) (plan : Plan) (s : Site) :
    ∃ more, (Stage.performAll tools s plan.stages).2.tried = s.tried ++ plan.build :: more ∧
      more <+: plan.optimize.toList ∧
      ∀ c, plan.optimize = some c → (c ∈ more ↔ plan.Delivers tools s) := by
  by_cases h : plan.Delivers tools s
  · exact ⟨plan.optimize.toList, tried_of_delivers h, List.prefix_refl _,
      fun c hc => ⟨fun _ => h, fun _ => by simp [hc]⟩⟩
  · exact ⟨[], tried_of_not_delivers h, List.nil_prefix,
      fun c _ => ⟨fun hm => absurd hm List.not_mem_nil, fun hd => absurd hd h⟩⟩

theorem disk_of_not_started {cause : IoError}
    (h : tools s.tried s.disk plan.build = .error cause) :
    (Stage.performAll tools s plan.stages).2.disk = s.disk := by
  rw [stages, (Stage.Fails.notStarted h).performAll_cons]
  simp only [Stage.perform, Command.attempt, h]

/-- Without an artifact the disk is as the build tool has left it. -/
theorem disk_of_not_built {outcome : Outcome} {left : Disk}
    (hstarts : tools s.tried s.disk plan.build = .ok outcome)
    (hleft : left = { s.disk with tree := outcome.tree })
    (h : outcome.ending ≠ .exited 0 ∨ left.isFile plan.source = false) :
    (Stage.performAll tools s plan.stages).2.disk = left := by
  subst hleft
  rw [stages]
  by_cases hends : outcome.ending = .exited 0
  · let built : Site := ⟨{ s.disk with tree := outcome.tree }, s.tried ++ [plan.build]⟩
    have hbuilt : (Stage.launch plan.build).Passes tools s built := .launch hstarts hends
    have hmissing : (Stage.check plan.source).Fails tools built (.artifactMissing plan.source) :=
      .missing (h.resolve_left fun hne => hne hends)
    rw [hbuilt.performAll_cons, hmissing.performAll_cons, Stage.perform_check]
  · rcases (Stage.launch plan.build).passes_or_fails tools s with ⟨_, hbuilt⟩ | ⟨e, hfails⟩
    · cases hbuilt with
      | launch hstarts' hends' =>
        obtain rfl := Except.ok.inj (hstarts.symm.trans hstarts')
        exact absurd hends' hends
    · rw [hfails.performAll_cons]
      simp only [Stage.perform, Command.attempt, hstarts]

end Plan

namespace Build

/-- A run tries the build command of its plan, and then the optimize command exactly when
the build tool has ended with status 0, has left a regular file as the artifact and that was
copied. It fails with the error of the first stage of the plan that fails, and a build without
an artifact leaves the disk as the build tool has left it. -/
theorem run_follows_plan (tools : Tools) (backend : Backend) (cfg : Config) (w : World) :
    let plan := Plan.ofConfig backend cfg
    let answer := tools w.launches w.disk plan.build
    let left (outcome : Outcome) : Disk := { w.disk with tree := outcome.tree }
    let result := run tools backend cfg w
    (∃ more, result.2.launches = w.launches ++ plan.build :: more ∧
      more <+: plan.optimize.toList ∧
      ∀ c, plan.optimize = some c →
        (c ∈ more ↔ ∃ outcome delivery disk, answer = .ok outcome ∧
          outcome.ending = .exited 0 ∧ (left outcome).isFile plan.source = true ∧
          (left outcome).deliver plan.source plan.destination = (.ok delivery, disk))) ∧
    (∀ cause, answer = .error cause → result.2.disk = w.disk) ∧
    (∀ outcome, answer = .ok outcome →
      outcome.ending ≠ .exited 0 ∨ (left outcome).isFile plan.source = false →
      result.2.disk = left outcome) ∧
    ∀ e, result.1 = .error e ↔
      ∃ done stage rest last, plan.stages = done ++ stage :: rest ∧
        Stage.PassAll tools w.site done last ∧ stage.Fails tools last e := by
  intro plan answer left result
  have hsite : result.2.site = (Stage.performAll tools w.site plan.stages).2 :=
    (run_performs tools backend cfg).site w
  have hresult : (result.1.map fun _ => ()) = (Stage.performAll tools w.site plan.stages).1 :=
    (run_performs tools backend cfg).result w
  have hdisk : result.2.disk = (Stage.performAll tools w.site plan.stages).2.disk :=
    congrArg Site.disk hsite
  refine ⟨?_, fun cause hanswer => ?_, fun outcome hanswer h => ?_, fun e => ?_⟩
  · obtain ⟨more, hmore, hprefix, hoptimize⟩ := plan.exists_tried tools w.site
    exact ⟨more, (congrArg Site.tried hsite).trans hmore, hprefix, hoptimize⟩
  · exact hdisk.trans (Plan.disk_of_not_started hanswer)
  · exact hdisk.trans (Plan.disk_of_not_built hanswer rfl h)
  · rw [← Stage.performAll_eq_error_iff, ← hresult]
    cases result.1 <;> simp [Except.map]

end Build

end WasmBuild
