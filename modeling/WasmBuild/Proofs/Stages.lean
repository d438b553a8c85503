import WasmBuild.Proofs.Runs

/-! A plan as the stages that it consists of. A run goes through the stages of its plan in
order and ends with the first one that fails; beside that it only writes to the log. -/

namespace WasmBuild

/-- Where a run stands: the disk, and the commands that were tried. -/
structure Site where
  disk : Disk
  tried : List Command

def World.site (w : World) : Site := ⟨w.disk, w.launches⟩

inductive Stage where
  | launch (command : Command)
  | check (source : Path)
  | copy (source destination : Path)
  | measure (artifact : Path)

namespace Plan

def finish (plan : Plan) : List Stage :=
  match plan.optimize with
  | some command => [.launch command, .measure plan.destination]
  | none => []

def stages (plan : Plan) : List Stage :=
  .launch plan.build :: .check plan.source :: .copy plan.source plan.destination :: plan.finish

end Plan

namespace Stage

def perform (tools : Tools) (s : Site) : Stage → Except BuildError Unit × Site
  | .launch command =>
    let (result, disk) := command.attempt tools s.tried s.disk
    (result, ⟨disk, s.tried ++ [command]⟩)
  | .check source => ((Build.checkArtifact source s.disk).map fun _ => (), s)
  | .copy source destination =>
    let (result, disk) := s.disk.deliver source destination
    (result.map fun _ => (), { s with disk })
  | .measure artifact => ((Build.measure artifact s.disk).map fun _ => (), s)

/-- Goes through stages up to the first that fails. -/
def performAll (tools : Tools) (s : Site) : List Stage → Except BuildError Unit × Site
  | [] => (.ok (), s)
  | stage :: rest =>
    match stage.perform tools s with
    | (.ok (), s) => performAll tools s rest
    | (.error e, s) => (.error e, s)

variable {tools : Tools}

theorem perform_check (tools : Tools) (s : Site) (source : Path) :
    (check source).perform tools s =
      (if s.disk.isFile source then .ok () else .error (.artifactMissing source), s) := by
  simp only [perform, Build.checkArtifact]
  split <;> rfl

theorem tried_launch (tools : Tools) (s : Site) (c : Command) :
    ((launch c).perform tools s).2.tried = s.tried ++ [c] := rfl

theorem tried_check (tools : Tools) (s : Site) (source : Path) :
    ((check source).perform tools s).2.tried = s.tried := rfl

theorem tried_measure (tools : Tools) (s : Site) (artifact : Path) :
    ((measure artifact).perform tools s).2.tried = s.tried := rfl

theorem tried_copy (tools : Tools) (s : Site) (src dst : Path) :
    ((copy src dst).perform tools s).2.tried = s.tried := rfl

theorem performAll_cons_ok {stage : Stage} {s left : Site} (rest : List Stage)
    (h : stage.perform tools s = (.ok (), left)) :
    performAll tools s (stage :: rest) = performAll tools left rest := by
  simp [performAll, h]

theorem performAll_cons_error {stage : Stage} {s left : Site} {e : BuildError}
    (rest : List Stage) (h : stage.perform tools s = (.error e, left)) :
    performAll tools s (stage :: rest) = (.error e, left) := by
  simp [performAll, h]

theorem performAll_append (s : Site) (first last : List Stage) :
    performAll tools s (first ++ last) =
      match performAll tools s first with
      | (.ok (), left) => performAll tools left last
      | (.error e, left) => (.error e, left) := by
  induction first generalizing s with
  | nil => rfl
  | cons stage first ih =>
    rcases h : stage.perform tools s with ⟨e | ⟨⟩, left⟩
    · rw [List.cons_append, performAll_cons_error _ h, performAll_cons_error _ h]
    · rw [List.cons_append, performAll_cons_ok _ h, performAll_cons_ok _ h, ih]

/-- A stage that passes, and where it leaves the run. A tool has to start and to end with
status 0. -/
inductive Passes (tools : Tools) (s : Site) : Stage → Site → Prop where
  | launch {c : Command} {outcome : Outcome} (hstarts : tools s.tried s.disk c = .ok outcome)
      (hends : outcome.ending = .exited 0) :
      Passes tools s (launch c) ⟨{ s.disk with tree := outcome.tree }, s.tried ++ [c]⟩
  | check {source : Path} (hfile : s.disk.isFile source = true) : Passes tools s (check source) s
  | copy {source destination : Path} {delivery : Delivery} {disk : Disk}
      (hdeliver : s.disk.deliver source destination = (.ok delivery, disk)) :
      Passes tools s (copy source destination) { s with disk }
  | measure {artifact : Path} {bytes : Nat} (hsize : s.disk.size artifact = .ok bytes) :
      Passes tools s (measure artifact) s

/-- A stage that fails, and the error that it gives. -/
inductive Fails (tools : Tools) (s : Site) : Stage → BuildError → Prop where
  | notStarted {c : Command} {cause : IoError}
      (hstarts : tools s.tried s.disk c = .error cause) :
      Fails tools s (launch c) (.notStarted c.program cause)
  | exited {c : Command} {outcome : Outcome} {status : UInt8}
      (hstarts : tools s.tried s.disk c = .ok outcome) (hends : outcome.ending = .exited status)
      (hstatus : status ≠ 0) :
      Fails tools s (launch c) (.commandFailed c.text (some status.toNat))
  | killed {c : Command} {outcome : Outcome} (hstarts : tools s.tried s.disk c = .ok outcome)
      (hends : outcome.ending = .killed) : Fails tools s (launch c) (.commandFailed c.text none)
  | missing {source : Path} (hfile : s.disk.isFile source = false) :
      Fails tools s (check source) (.artifactMissing source)
  | copy {source destination : Path} {e : BuildError} {disk : Disk}
      (hdeliver : s.disk.deliver source destination = (.error e, disk)) :
      Fails tools s (copy source destination) e
  | measure {artifact : Path} {cause : IoError} (hsize : s.disk.size artifact = .error cause) :
      Fails tools s (measure artifact) (.io artifact cause)

/-- Stages that pass one after the other. -/
inductive PassAll (tools : Tools) : Site → List Stage → Site → Prop where
  | nil {s : Site} : PassAll tools s [] s
  | cons {s middle last : Site} {stage : Stage} {rest : List Stage}
      (h : stage.Passes tools s middle) (hrest : PassAll tools middle rest last) :
      PassAll tools s (stage :: rest) last

theorem Passes.perform {s left : Site} {stage : Stage} (h : stage.Passes tools s left) :
    stage.perform tools s = (.ok (), left) := by
  cases h with
  | launch hstarts hends =>
    have hattempt := Command.attempt_eq_ok_iff.mpr ⟨_, hstarts, hends, rfl⟩
    simp only [Stage.perform, hattempt]
  | check hfile => rw [perform_check, if_pos hfile]
  | copy hdeliver =>
    simp only [Stage.perform, hdeliver]
    rfl
  | measure hsize =>
    simp only [Stage.perform, Build.measure, hsize]
    rfl

theorem Fails.perform {s : Site} {stage : Stage} {e : BuildError} (h : stage.Fails tools s e) :
    (stage.perform tools s).1 = .error e := by
  cases h with
  | notStarted hstarts => simp only [Stage.perform, Command.attempt, hstarts]
  | exited hstarts hends hstatus =>
    simp only [Stage.perform, Command.attempt, hstarts, hends, Ending.check_exited hstatus]
  | killed hstarts hends =>
    simp only [Stage.perform, Command.attempt, hstarts, hends, Ending.check_killed]
  | missing hfile => simp [perform_check, hfile]
  | copy hdeliver =>
    simp only [Stage.perform, hdeliver]
    rfl
  | measure hsize =>
    simp only [Stage.perform, Build.measure, hsize]
    rfl

theorem Passes.tried {s left : Site} {stage : Stage} (h : stage.Passes tools s left) :
    left.tried = (stage.perform tools s).2.tried := by
  rw [h.perform]

theorem Passes.performAll_cons {s left : Site} {stage : Stage} (h : stage.Passes tools s left)
    (rest : List Stage) : performAll tools s (stage :: rest) = performAll tools left rest :=
  performAll_cons_ok rest h.perform

theorem Fails.performAll_cons {s : Site} {stage : Stage} {e : BuildError}
    (h : stage.Fails tools s e) (rest : List Stage) :
    performAll tools s (stage :: rest) = (.error e, (stage.perform tools s).2) :=
  performAll_cons_error rest (Prod.ext h.perform rfl)

theorem passes_or_fails (tools : Tools) (s : Site) (stage : Stage) :
    (∃ left, stage.Passes tools s left) ∨ ∃ e, stage.Fails tools s e := by
  cases stage with
  | launch c =>
    cases hstarts : tools s.tried s.disk c with
    | error cause => exact .inr ⟨_, .notStarted hstarts⟩
    | ok outcome =>
      cases hends : outcome.ending with
      | killed => exact .inr ⟨_, .killed hstarts hends⟩
      | exited status =>
        by_cases hstatus : status = 0
        · exact .inl ⟨_, .launch hstarts (hstatus ▸ hends)⟩
        · exact .inr ⟨_, .exited hstarts hends hstatus⟩
  | check source =>
    cases hfile : s.disk.isFile source with
    | true => exact .inl ⟨_, .check hfile⟩
    | false => exact .inr ⟨_, .missing hfile⟩
  | copy source destination =>
    rcases hdeliver : s.disk.deliver source destination with ⟨e | delivery, disk⟩
    · exact .inr ⟨_, .copy hdeliver⟩
    · exact .inl ⟨_, .copy hdeliver⟩
  | measure artifact =>
    cases hsize : s.disk.size artifact with
    | error cause => exact .inr ⟨_, .measure hsize⟩
    | ok bytes => exact .inl ⟨_, .measure hsize⟩

theorem perform_eq_ok_iff {s left : Site} {stage : Stage} :
    stage.perform tools s = (.ok (), left) ↔ stage.Passes tools s left := by
  refine ⟨fun h => ?_, Passes.perform⟩
  rcases passes_or_fails tools s stage with ⟨left', hpasses⟩ | ⟨e, hfails⟩
  · obtain rfl : left' = left := (Prod.mk.inj (hpasses.perform.symm.trans h)).2
    exact hpasses
  · cases hfails.perform.symm.trans (congrArg Prod.fst h)

theorem perform_eq_error_iff {s : Site} {stage : Stage} {e : BuildError} :
    (stage.perform tools s).1 = .error e ↔ stage.Fails tools s e := by
  refine ⟨fun h => ?_, Fails.perform⟩
  rcases passes_or_fails tools s stage with ⟨left, hpasses⟩ | ⟨e', hfails⟩
  · cases (congrArg Prod.fst hpasses.perform).symm.trans h
  · obtain rfl : e' = e := Except.error.inj (hfails.perform.symm.trans h)
    exact hfails

theorem performAll_eq_ok_iff {s left : Site} {stages : List Stage} :
    performAll tools s stages = (.ok (), left) ↔ PassAll tools s stages left := by
  constructor
  · intro h
    induction stages generalizing s with
    | nil =>
      cases h
      exact .nil
    | cons stage rest ih =>
      rcases hs : stage.perform tools s with ⟨e | ⟨⟩, middle⟩
      · rw [performAll_cons_error rest hs] at h
        cases h
      · rw [performAll_cons_ok rest hs] at h
        exact .cons (perform_eq_ok_iff.mp hs) (ih h)
  · intro h
    induction h with
    | nil => rfl
    | cons hstage _ ih => rw [hstage.performAll_cons, ih]

/-- Stages fail as the first of them that fails. -/
theorem performAll_eq_error_iff {s : Site} {stages : List Stage} {e : BuildError} :
    (performAll tools s stages).1 = .error e ↔
      ∃ done stage rest left, stages = done ++ stage :: rest ∧ PassAll tools s done left ∧
        stage.Fails tools left e := by
  constructor
  · intro h
    induction stages generalizing s with
    | nil => cases h
    | cons stage stages ih =>
      rcases passes_or_fails tools s stage with ⟨middle, hpasses⟩ | ⟨e', hfails⟩
      · rw [hpasses.performAll_cons] at h
        obtain ⟨done, failing, rest, left, rfl, hdone, hfails⟩ := ih h
        exact ⟨stage :: done, failing, rest, left, rfl, .cons hpasses hdone, hfails⟩
      · rw [hfails.performAll_cons] at h
        obtain rfl : e' = e := Except.error.inj h
        exact ⟨[], stage, stages, s, rfl, .nil, hfails⟩
  · rintro ⟨done, stage, rest, left, rfl, hdone, hfails⟩
    rw [performAll_append, performAll_eq_ok_iff.mpr hdone]
    exact congrArg Prod.fst (hfails.performAll_cons rest)

end Stage

/-- A part of a run goes through stages, whatever world it starts in. -/
def Run.Performs {α : Type} (tools : Tools) (x : Run BuildError α) (stages : List Stage) : Prop :=
  ∀ w, ((x w).1.map fun _ => (), (x w).2.site) = Stage.performAll tools w.site stages

namespace Run.Performs

variable {α β : Type} {tools : Tools}

theorem result {x : Run BuildError α} {stages : List Stage} (h : Performs tools x stages)
    (w : World) : ((x w).1.map fun _ => ()) = (Stage.performAll tools w.site stages).1 :=
  congrArg Prod.fst (h w)

theorem site {x : Run BuildError α} {stages : List Stage} (h : Performs tools x stages)
    (w : World) : (x w).2.site = (Stage.performAll tools w.site stages).2 :=
  congrArg Prod.snd (h w)

theorem pure (a : α) : Performs tools (Pure.pure a : Run BuildError α) [] := fun _ => rfl

theorem log (level : Log.Level) (target message : String) :
    Performs tools (Run.log level target message) [] := by
  intro w
  rw [Run.log_apply]
  simp [World.site, World.launches_log, Stage.performAll, Except.map]

theorem bind {x : Run BuildError α} {f : α → Run BuildError β} (first last : List Stage)
    (hx : Performs tools x first)
    (hf : ∀ w a left, x w = (.ok a, left) → Performs tools (f a) last) :
    Performs tools (x >>= f) (first ++ last) := by
  intro w
  have hw := hx w
  rw [Stage.performAll_append, Run.bind_apply, ← hw]
  rcases h : x w with ⟨e | a, left⟩
  · rfl
  · exact hf w a left h left

theorem command (c : Command) : Performs tools (c.run tools) [.launch c] := by
  intro w
  have hl := c.run_launches tools w
  rw [Command.run_apply] at hl ⊢
  simp only [World.site, hl, Stage.performAll, Stage.perform]
  cases (c.attempt tools w.launches w.disk).1 <;> rfl

end Run.Performs

namespace Build

variable {tools : Tools} {backend : Backend} {cfg : Config}

theorem compile_performs :
    Run.Performs tools (compile tools backend cfg)
      [.launch (backend.command cfg), .check cfg.source] := by
  refine .bind [_] [_] (.command _) fun _ _ _ _ w => ?_
  rw [Run.ask_apply]
  simp only [World.site, Stage.performAll, Stage.perform]
  cases checkArtifact cfg.source w.disk <;> rfl

theorem compile_source {w left : World} {source : Path}
    (h : compile tools backend cfg w = (.ok source, left)) : source = cfg.source := by
  obtain ⟨-, middle, -, hask⟩ := Run.bind_eq_ok h
  rw [Run.ask_apply, Prod.mk.injEq, checkArtifact] at hask
  split at hask
  · exact (Except.ok.inj hask.1).symm
  · cases hask.1

theorem deliver_performs (src dst : Path) :
    Run.Performs tools (deliver src dst) [.copy src dst] := by
  have hact : Run.Performs tools (Run.act fun d => d.deliver src dst) [.copy src dst] := by
    intro w
    rw [Run.act_apply]
    simp only [World.site, Stage.performAll, Stage.perform]
    cases (w.disk.deliver src dst).1 <;> rfl
  refine .bind [_] [] hact fun _ delivery _ _ => ?_
  cases delivery.copied with
  | false => exact .bind [] [] (.log _ _ _) fun _ _ _ _ => .pure _
  | true => exact .pure _

theorem optimize_performs :
    Run.Performs tools (optimize tools cfg)
      [.launch (cfg.optimize.command cfg.destination cfg.projectDir),
        .measure cfg.destination] := by
  have hask :
      Run.Performs tools (Run.ask (measure cfg.destination)) [.measure cfg.destination] := by
    intro w
    rw [Run.ask_apply]
    simp only [World.site, Stage.performAll, Stage.perform]
    cases measure cfg.destination w.disk <;> rfl
  refine .bind [_] [_] (.command _) fun _ _ _ _ => ?_
  refine .bind [_] [] hask fun _ _ _ _ => ?_
  exact .bind [] [] (.log _ _ _) fun _ _ _ _ => .pure _

theorem run_performs (tools : Tools) (backend : Backend) (cfg : Config) :
    Run.Performs tools (run tools backend cfg) (Plan.ofConfig backend cfg).stages := by
  refine .bind [] _ (.log _ _ _) fun _ _ _ _ => ?_
  refine .bind [_, _] _ compile_performs fun _ source _ hsource => ?_
  rw [compile_source hsource]
  refine .bind [] _ (.log _ _ _) fun _ _ _ _ => ?_
  refine .bind [_] _ (deliver_performs _ _) fun _ _ _ _ => ?_
  refine .bind [] _ (.log _ _ _) fun _ _ _ _ => ?_
  dsimp only [Plan.finish, Plan.ofConfig]
  cases cfg.optimize.enabled with
  | false => exact .pure _
  | true => exact .bind [_, _] [] optimize_performs fun _ _ _ _ => .pure _

section Closed

variable {tools' : Tools} {R : ∀ {α : Type}, Run BuildError α → Run BuildError α → Prop}
  {P : ∀ {α : Type}, Run BuildError α → Prop}

theorem deliver_related {src dst : Path} (hpure : ∀ {α : Type} (a : α), R (pure a) (pure a))
    (hbind : ∀ {α β : Type} {x x' : Run BuildError α} {f f' : α → Run BuildError β}, R x x' →
      (∀ w a left, x w = (.ok a, left) → R (f a) (f' a)) → R (x >>= f) (x' >>= f'))
    (hlog : ∀ level target message, level = .info ∨ level = .debug →
      R (Run.log level target message) (Run.log level target message))
    (hcopy : R (Run.act fun d => d.deliver src dst) (Run.act fun d => d.deliver src dst)) :
    R (deliver src dst) (deliver src dst) := by
  refine hbind hcopy fun _ delivery _ _ => ?_
  cases delivery.copied with
  | false => exact hbind (hlog _ _ _ (.inr rfl)) fun _ _ _ _ => hpure _
  | true => exact hpure _

/-- What relates the stages of two builds, and parts that are put together when it relates them,
relates the builds. -/
theorem run_related (hpure : ∀ {α : Type} (a : α), R (pure a) (pure a))
    (hbind : ∀ {α β : Type} {x x' : Run BuildError α} {f f' : α → Run BuildError β}, R x x' →
      (∀ w a left, x w = (.ok a, left) → R (f a) (f' a)) → R (x >>= f) (x' >>= f'))
    (hlog : ∀ level target message, level = .info ∨ level = .debug →
      R (Run.log level target message) (Run.log level target message))
    (hbuild : R ((backend.command cfg).run tools) ((backend.command cfg).run tools'))
    (hcheck : R (Run.ask (checkArtifact cfg.source)) (Run.ask (checkArtifact cfg.source)))
    (hcopy : R (Run.act fun d => d.deliver cfg.source cfg.destination)
      (Run.act fun d => d.deliver cfg.source cfg.destination))
    (hoptimize : R ((cfg.optimize.command cfg.destination cfg.projectDir).run tools)
      ((cfg.optimize.command cfg.destination cfg.projectDir).run tools'))
    (hmeasure : R (Run.ask (measure cfg.destination)) (Run.ask (measure cfg.destination))) :
    R (run tools backend cfg) (run tools' backend cfg) := by
  refine hbind (hlog _ _ _ (.inl rfl)) fun _ _ _ _ => ?_
  refine hbind (hbind hbuild fun _ _ _ _ => hcheck) fun _ source _ hsource => ?_
  rw [compile_source hsource]
  refine hbind (hlog _ _ _ (.inr rfl)) fun _ _ _ _ => ?_
  refine hbind (deliver_related hpure hbind hlog hcopy) fun _ _ _ _ => ?_
  refine hbind (hlog _ _ _ (.inl rfl)) fun _ _ _ _ => ?_
  cases cfg.optimize.enabled with
  | false => exact hpure _
  | true =>
    refine hbind (hbind hoptimize fun _ _ _ _ => ?_) fun _ _ _ _ => hpure _
    exact hbind hmeasure fun _ _ _ _ => hbind (hlog _ _ _ (.inl rfl)) fun _ _ _ _ => hpure _

/-- What holds of each stage, and of parts that are put together when it holds of them, holds
of a whole build. -/
theorem run_closed (hpure : ∀ {α : Type} (a : α), P (pure a))
    (hbind : ∀ {α β : Type} {x : Run BuildError α} {f : α → Run BuildError β}, P x →
      (∀ w a left, x w = (.ok a, left) → P (f a)) → P (x >>= f))
    (hlog : ∀ level target message, level = .info ∨ level = .debug →
      P (Run.log level target message))
    (hbuild : P ((backend.command cfg).run tools))
    (hcheck : P (Run.ask (checkArtifact cfg.source)))
    (hcopy : P (Run.act fun d => d.deliver cfg.source cfg.destination))
    (hoptimize : P ((cfg.optimize.command cfg.destination cfg.projectDir).run tools))
    (hmeasure : P (Run.ask (measure cfg.destination))) : P (run tools backend cfg) :=
  @run_related tools _ _ tools (fun x _ => P x) hpure hbind hlog hbuild hcheck hcopy hoptimize
    hmeasure

end Closed

end Build

end WasmBuild
