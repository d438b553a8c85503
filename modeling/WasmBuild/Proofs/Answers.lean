import WasmBuild.Proofs.DryRun
import WasmBuild.Proofs.Toolless

/-! What comes of the commands that a request tries. A command that ends badly is the last one
and decides how the request fails; a request that fails for the sake of a tool has tried it.
Until then the program says nothing itself. -/

namespace WasmBuild

namespace World

/-- What the program itself has said, in order. -/
def said (w : World) : List (Channel × String) :=
  w.trace.filterMap fun
    | .print channel text => some (channel, text)
    | _ => none

theorem said_tell (w : World) (events : List Event) :
    (w.tell events).said = w.said ++ (⟨w.disk, events⟩ : World).said :=
  List.filterMap_append

theorem said_tell_logs {w : World} {events : List Event} (h : ∀ e ∈ events, e.IsLog) :
    (w.tell events).said = w.said := by
  have hnone : (⟨w.disk, events⟩ : World).said = [] := by
    refine List.filterMap_eq_nil_iff.mpr fun e hm => ?_
    obtain ⟨record, rfl⟩ := h e hm
    rfl
  rw [said_tell, hnone, List.append_nil]

end World

namespace Stage

/-- The command that a stage tries, and what comes of it. -/
def answer? (tools : Tools) (s : Site) : Stage → Option (Command × Except IoError Outcome)
  | .launch c => some (c, tools s.tried s.disk c)
  | _ => none

/-- The commands that are tried up to the first stage that fails, each with what comes
of it. -/
def answers (tools : Tools) (s : Site) : List Stage → List (Command × Except IoError Outcome)
  | [] => []
  | stage :: rest =>
    (stage.answer? tools s).toList ++
      match stage.perform tools s with
      | (.ok (), left) => answers tools left rest
      | (.error _, _) => []

variable {tools : Tools} {s : Site} {c : Command} {outcome : Outcome} {e : BuildError}

theorem tried_perform (tools : Tools) (s : Site) (stage : Stage) :
    (stage.perform tools s).2.tried = s.tried ++ (stage.answer? tools s).toList.map Prod.fst := by
  cases stage with
  | launch c => rfl
  | check source => exact (List.append_nil _).symm
  | copy source destination => exact (List.append_nil _).symm
  | measure artifact => exact (List.append_nil _).symm

theorem tried_performAll (tools : Tools) (s : Site) (stages : List Stage) :
    (performAll tools s stages).2.tried = s.tried ++ (answers tools s stages).map Prod.fst := by
  induction stages generalizing s with
  | nil => exact (List.append_nil _).symm
  | cons stage rest ih =>
    have ht := tried_perform tools s stage
    rcases hs : stage.perform tools s with ⟨e | ⟨⟩, left⟩
    · rw [hs] at ht
      rw [performAll_cons_error rest hs, answers, hs, List.append_nil]
      exact ht
    · rw [hs] at ht
      rw [performAll_cons_ok rest hs, answers, hs, ih, List.map_append, ← List.append_assoc]
      exact congrArg (· ++ _) ht

/-- A stage that tries a command which ends badly fails for that reason. -/
theorem perform_of_answer {stage : Stage} (h : stage.answer? tools s = some (c, .ok outcome))
    (hc : outcome.ending.check c = .error e) : (stage.perform tools s).1 = .error e := by
  cases stage with
  | launch c' =>
    obtain ⟨rfl, ht⟩ := Prod.mk.inj (Option.some.inj h)
    simp only [perform, Command.attempt, ht, hc]
  | _ => cases h

theorem answer_of_perform {stage : Stage} (h : (stage.perform tools s).1 = .error e)
    (he : e.isCommandFailure = true) :
    ∃ c outcome, stage.answer? tools s = some (c, .ok outcome) ∧
      outcome.ending.check c = .error e := by
  cases perform_eq_error_iff.mp h with
  | notStarted | missing | measure => cases he
  | exited hstarts hends hstatus =>
    exact ⟨_, _, by rw [answer?, hstarts], hends ▸ Ending.check_exited hstatus⟩
  | killed hstarts hends =>
    exact ⟨_, _, by rw [answer?, hstarts], hends ▸ Ending.check_killed⟩
  | copy hdeliver =>
    have hcopy := s.disk.toolless_deliver _ _ e (congrArg Prod.fst hdeliver)
    exact absurd he (Bool.eq_false_iff.mp hcopy)

theorem performAll_of_answer {stages : List Stage} (h : (c, .ok outcome) ∈ answers tools s stages)
    (hc : outcome.ending.check c = .error e) : (performAll tools s stages).1 = .error e := by
  -- A stage after one that fails has no answer, so the bad one is where the stages end.
  induction stages generalizing s with
  | nil => cases h
  | cons stage rest ih =>
    rcases List.mem_append.mp h with hm | hm
    · have hstage := perform_of_answer (Option.mem_toList.mp hm) hc
      rw [performAll_cons_error rest (Prod.ext hstage rfl)]
    · rcases hs : stage.perform tools s with ⟨e' | ⟨⟩, left⟩
      · rw [hs] at hm
        cases hm
      · rw [hs] at hm
        rw [performAll_cons_ok rest hs]
        exact ih hm

theorem answer_of_performAll {stages : List Stage} (h : (performAll tools s stages).1 = .error e)
    (he : e.isCommandFailure = true) :
    ∃ c outcome, (c, .ok outcome) ∈ answers tools s stages ∧ outcome.ending.check c = .error e := by
  induction stages generalizing s with
  | nil => cases h
  | cons stage rest ih =>
    rcases hs : stage.perform tools s with ⟨e' | ⟨⟩, left⟩
    · rw [performAll_cons_error rest hs] at h
      obtain ⟨c, outcome, ha, hc⟩ := answer_of_perform ((congrArg Prod.fst hs).trans h) he
      exact ⟨c, outcome, List.mem_append_left _ (Option.mem_toList.mpr ha), hc⟩
    · rw [performAll_cons_ok rest hs] at h
      obtain ⟨c, outcome, ha, hc⟩ := ih h
      refine ⟨c, outcome, List.mem_append_right _ ?_, hc⟩
      rw [hs]
      exact ha

end Stage

/-- A part of a run that says nothing itself. -/
def Run.Quiet {ε α : Type} (x : Run ε α) : Prop := ∀ w, (x w).2.said = w.said

namespace Run.Quiet

variable {ε α β : Type}

theorem pure (a : α) : Quiet (Pure.pure a : Run ε α) := fun _ => rfl

theorem bind {x : Run ε α} {f : α → Run ε β} (hx : Quiet x)
    (hf : ∀ w a left, x w = (.ok a, left) → Quiet (f a)) : Quiet (x >>= f) := by
  intro w
  have hw := hx w
  rw [Run.bind_apply]
  rcases h : x w with ⟨e | a, left⟩
  · rw [h] at hw
    exact hw
  · rw [h] at hw
    exact (hf w a left h left).trans hw

theorem log (level : Log.Level) (target message : String) :
    Quiet (Run.log level target message : Run ε Unit) := by
  intro w
  rw [Run.log_apply]
  simp [World.said]

theorem ask (question : Disk → Except ε α) : Quiet (Run.ask question) := by
  intro w
  rw [Run.ask_apply]

theorem act (change : Disk → Except ε α × Disk) : Quiet (Run.act change) := by
  intro w
  rw [Run.act_apply]
  rfl

theorem command (tools : Tools) (c : Command) : Quiet (c.run tools) := by
  intro w
  rw [Command.run_apply, Command.seen]
  cases tools w.launches w.disk c <;> simp [World.said]

end Run.Quiet

theorem Build.run_quiet (tools : Tools) (backend : Backend) (cfg : Config) :
    Run.Quiet (run tools backend cfg) :=
  run_closed .pure .bind (fun _ _ _ _ => .log _ _ _) (.command tools _) (.ask _) (.act _)
    (.command tools _) (.ask _)

namespace Request

variable [Toml.Dialect]

/-- The commands that a request comes to try, each with what comes of it. -/
def answers (tools : Tools) (r : Request) (cwd : Path) (env : Environment) (w : World) :
    List (Command × Except IoError Outcome) :=
  match r.configuration cwd env w.disk with
  | .error _ => []
  | .ok cfg =>
    if r.dryRun then []
    else Stage.answers tools w.site (Plan.ofConfig (Backend.ofMode cfg.mode) cfg).stages

variable {tools : Tools} {r : Request} {cwd : Path} {env : Environment} {w : World}

theorem toolError?_configuration {d : Disk} {f : Failure}
    (h : r.configuration cwd env d = .error f) : f.toolError? = none := by
  rcases configuration_eq_error_iff.mp h with ⟨e, hp, rfl⟩ | ⟨project, e, -, hc, rfl⟩
  · exact if_neg (Bool.eq_false_iff.mp (Project.toolless_find d _ cwd e hp))
  · exact if_neg (Bool.eq_false_iff.mp (Config.toolless_resolve d project _ env e hc))

/-- The commands in the trace of a request are those that it comes to try. -/
theorem launches_execute (tools : Tools) (r : Request) (cwd : Path) (env : Environment)
    (w : World) :
    (r.execute tools cwd env w).2.launches =
      w.launches ++ (r.answers tools cwd env w).map Prod.fst := by
  have hnotes := World.launches_tell_logs (w := w) (isLog_notes r cwd env w.disk)
  cases hc : r.configuration cwd env w.disk with
  | error f =>
    rw [execute_of_configuration_error hc, answers, hc, hnotes]
    exact (List.append_nil _).symm
  | ok cfg =>
    cases hd : r.dryRun with
    | true =>
      rw [execute_of_dryRun hc hd, answers, hc, ← World.tell_tell, World.launches_tell_print,
        hnotes, hd]
      exact (List.append_nil _).symm
    | false =>
      have hsite : (r.execute tools cwd env w).2.site = (Stage.performAll tools w.site
          (Plan.ofConfig (Backend.ofMode cfg.mode) cfg).stages).2 := (execute_performs hc hd).2
      rw [answers, hc, hd]
      exact (congrArg Site.tried hsite).trans (Stage.tried_performAll tools w.site _)

theorem execute_of_answer {c : Command} {outcome : Outcome} {e : BuildError}
    (h : (c, .ok outcome) ∈ r.answers tools cwd env w) (hc : outcome.ending.check c = .error e) :
    (r.execute tools cwd env w).1 = .error (.ofError e) := by
  unfold answers at h
  split at h
  · cases h
  · next cfg hcfg =>
    cases hd : r.dryRun with
    | true =>
      rw [hd] at h
      cases h
    | false =>
      rw [hd] at h
      rw [(execute_performs hcfg hd).1, Stage.performAll_of_answer h hc]
      rfl

/-- A request fails for the sake of a tool only when it has tried it. -/
theorem answer_of_execute {f : Failure} {e : BuildError}
    (h : (r.execute tools cwd env w).1 = .error f) (he : f.toolError? = some e) :
    ∃ c outcome, (c, .ok outcome) ∈ r.answers tools cwd env w ∧
      outcome.ending.check c = .error e := by
  cases hc : r.configuration cwd env w.disk with
  | error g =>
    rw [execute_of_configuration_error hc] at h
    cases h
    rw [toolError?_configuration hc] at he
    cases he
  | ok cfg =>
    cases hd : r.dryRun with
    | true =>
      rw [execute_of_dryRun hc hd] at h
      cases h
    | false =>
      rw [(execute_performs hc hd).1] at h
      cases hp : (Stage.performAll tools w.site
        (Plan.ofConfig (Backend.ofMode cfg.mode) cfg).stages).1 with
      | ok =>
        rw [hp] at h
        cases h
      | error e' =>
        rw [hp] at h
        cases h
        obtain ⟨rfl, hcommand⟩ := Failure.toolError?_ofError_eq_some.mp he
        rw [answers, hc, hd]
        exact Stage.answer_of_performAll hp hcommand

/-- The program says nothing until it has succeeded or failed. -/
theorem said_of_execute_error {f : Failure} (h : (r.execute tools cwd env w).1 = .error f) :
    (r.execute tools cwd env w).2.said = w.said := by
  have hnotes := World.said_tell_logs (w := w) (isLog_notes r cwd env w.disk)
  cases hc : r.configuration cwd env w.disk with
  | error g => rw [execute_of_configuration_error hc, hnotes]
  | ok cfg =>
    cases hd : r.dryRun with
    | true =>
      rw [execute_of_dryRun hc hd] at h
      cases h
    | false =>
      have hquiet := Build.run_quiet tools (Backend.ofMode cfg.mode) cfg
        (w.tell (r.notes cwd env w.disk))
      rw [hnotes] at hquiet
      rw [execute_of_not_dryRun hc hd] at h ⊢
      rcases hb : Build.run tools (Backend.ofMode cfg.mode) cfg (w.tell (r.notes cwd env w.disk))
        with ⟨e | report, left⟩
      · rw [hb] at hquiet
        exact hquiet
      · rw [hb] at h
        cases h

end Request

end WasmBuild
