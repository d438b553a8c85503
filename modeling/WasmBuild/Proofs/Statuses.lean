import WasmBuild.Invocation
import WasmBuild.Proofs.Answers

/-! How an invocation ends. A tool that ends badly gives it its status and has told why, so that
only the log tells of it; every other failure has status 1 and is told by the program, in one
report. -/

namespace WasmBuild

namespace Failure

theorem exitCode_of_toolError?_eq_none {f : Failure} (h : f.toolError? = none) :
    f.exitCode = 1 := by
  obtain ⟨contexts, cause | text⟩ := f
  · simp only [toolError?] at h
    split at h
    · cases h
    · next hc => exact BuildError.exitCode_of_not_commandFailure (Bool.eq_false_iff.mpr hc)
  · rfl

theorem exitCode_pos (f : Failure) : 0 < f.exitCode := by
  obtain ⟨contexts, cause | text⟩ := f
  · exact cause.exitCode_bounds.1
  · exact Nat.one_pos

theorem events_of_tool {f : Failure} {e : BuildError} (h : f.toolError? = some e) :
    f.events = [.log ⟨.debug, Request.logTarget, e.message⟩] := by
  rw [events, h]

theorem events_of_no_tool {f : Failure} (h : f.toolError? = none) :
    f.events = [.print .errors f.text] := by
  rw [events, h]

theorem launches_tell_events (w : World) (f : Failure) :
    (w.tell f.events).launches = w.launches := by
  rw [events]
  cases f.toolError? <;> simp [World.tell, World.launches]

theorem foldl_within (f : Failure) (contexts : List String) :
    contexts.foldl (fun f context => f.within context) f =
      ⟨contexts.reverse ++ f.contexts, f.cause⟩ := by
  induction contexts generalizing f with
  | nil => rfl
  | cons context rest ih =>
    rw [List.foldl_cons, ih, List.reverse_cons, List.append_assoc]
    rfl

theorem foldl_within_ofError (e : BuildError) (contexts : List String) :
    contexts.foldl (fun f context => f.within context) (ofError e) =
      ⟨contexts.reverse, .build e⟩ := by
  rw [foldl_within, ofError, List.append_nil]

end Failure

/-- What is seen of the failure of a tool, which is a line of the log where the filter lets it
through. -/
def BuildError.logged (e : BuildError) (filter : Log.Filter) : ByteArray :=
  let record : Log.Record := ⟨.debug, "resbuild_cli", e.message⟩
  if filter.allows record then record.line.toUTF8 else ⟨#[]⟩

theorem World.not_print_of_said {w : World} (h : w.said = []) (channel : Channel) (text : String) :
    .print channel text ∉ w.trace := fun hm =>
  nomatch List.filterMap_eq_nil_iff.mp h _ hm

namespace Finished

/-- An invocation that has ended with a report of its failure. The program has said nothing itself
until then, so that what was seen before are complaints about the filter, lines of the log and
what the tools have printed. -/
def Reports (f : Finished) (report : ByteArray) : Prop :=
  ∃ earlier last, f.world.trace = earlier ++ [last] ∧
    (∀ channel text, .print channel text ∉ earlier) ∧
    f.errors = Bytes.concat (f.complaints.map String.toUTF8 ++ earlier.map f.errorsOf) ++ report

theorem errors_tell (f : Finished) (e : Event) :
    { f with world := f.world.tell [e] }.errors = f.errors ++ f.errorsOf e := by
  rw [errors, errors, World.tell, List.map_append, ← List.append_assoc, Bytes.concat,
    List.foldl_append]
  rfl

theorem reports_tell {f : Finished} (h : f.world.said = []) (e : Event) :
    Reports { f with world := f.world.tell [e] } (f.errorsOf e) :=
  ⟨f.world.trace, e, rfl, World.not_print_of_said h, f.errors_tell e⟩

/-- What a failure adds to what is seen. -/
theorem errors_within (before : Finished) (e : BuildError) (contexts : List String) :
    let f := contexts.foldl (fun f context => f.within context) (Failure.ofError e)
    { before with world := before.world.tell f.events }.errors = before.errors ++
      if e.isCommandFailure then e.logged before.filter
      else ("✖ " ++ ": ".intercalate (contexts.reverse ++ e.message :: e.cause?.toList) ++
        "\n").toUTF8 := by
  intro f
  have hf : f = ⟨contexts.reverse, .build e⟩ := Failure.foldl_within_ofError e contexts
  cases htool : e.isCommandFailure with
  | true =>
    have he : f.toolError? = some e := hf ▸ if_pos htool
    rw [Failure.events_of_tool he, before.errors_tell]
    rfl
  | false =>
    have he : f.toolError? = none := hf ▸ if_neg (Bool.eq_false_iff.mp htool)
    rw [Failure.events_of_no_tool he, before.errors_tell, hf]
    rfl

end Finished

namespace Request

variable [Toml.Dialect] {tools : Tools} {r : Request} {cwd : Path} {env : Environment} {w : World}

theorem carryOut_of_ok (h : (r.execute tools cwd env w).1 = .ok ()) :
    r.carryOut tools cwd env w = (0, (r.execute tools cwd env w).2) := by
  rw [carryOut]
  rcases hx : r.execute tools cwd env w with ⟨f | ⟨⟩, left⟩
  · rw [hx] at h
    cases h
  · rfl

theorem carryOut_of_error {f : Failure} (h : (r.execute tools cwd env w).1 = .error f) :
    r.carryOut tools cwd env w = (f.exitCode, (r.execute tools cwd env w).2.tell f.events) := by
  rw [carryOut]
  rcases hx : r.execute tools cwd env w with ⟨f | ⟨⟩, left⟩
  · rw [hx] at h
    cases h
    rfl
  · rw [hx] at h
    cases h

theorem carryOut_status_eq_zero_iff :
    (r.carryOut tools cwd env w).1 = 0 ↔ (r.execute tools cwd env w).1 = .ok () := by
  cases hx : (r.execute tools cwd env w).1 with
  | ok => simp [carryOut_of_ok hx]
  | error f =>
    have hne : f.exitCode ≠ 0 := Nat.ne_of_gt f.exitCode_pos
    rw [carryOut_of_error hx]
    exact ⟨fun h => absurd h hne, nofun⟩

theorem launches_carryOut (tools : Tools) (r : Request) (cwd : Path) (env : Environment)
    (w : World) :
    (r.carryOut tools cwd env w).2.launches =
      w.launches ++ (r.answers tools cwd env w).map Prod.fst := by
  rw [← launches_execute]
  cases hx : (r.execute tools cwd env w).1 with
  | ok => rw [carryOut_of_ok hx]
  | error f =>
    rw [carryOut_of_error hx, Failure.launches_tell_events]

end Request

namespace Invocation

open CommandLine

def status : Except Usage Finished → Nat
  | .ok finished => finished.status
  | .error u => u.exitCode

/-- The world that an invocation on a disk leaves. -/
def left (d : Disk) : Except Usage Finished → World
  | .ok finished => finished.world
  | .error _ => ⟨d, []⟩

theorem toolError?_workingDir {d : Disk} {f : Failure} (h : workingDir d = .error f) :
    f.toolError? = none := by
  rw [workingDir] at h
  split at h
  · cases h
    rfl
  · split at h
    · cases h
    · cases h
      rfl

section Endings

variable [Toml.Dialect]

/-- The commands that an invocation comes to try, each with what comes of it. -/
def answers (tools : Tools) (args : List Token) (block : Environment.Block) (d : Disk) :
    List (Command × Except IoError Outcome) :=
  match parse args, workingDir d with
  | .ok r, .ok cwd => r.answers tools cwd (Environment.ofProcess block) ⟨d, []⟩
  | _, _ => []

variable {tools : Tools} {args : List Token} {block : Environment.Block} {d : Disk} {r : Request}

theorem run_of_usage {u : Usage} (h : parse args = .error u) (tools : Tools)
    (block : Environment.Block) (d : Disk) : run tools args block d = .error u := by
  rw [run, h]
  rfl

/-- What a request comes to, among the variables of a process. -/
def finish (tools : Tools) (r : Request) (block : Environment.Block) (d : Disk) : Finished :=
  let carried := carryOut tools r (Environment.ofProcess block) ⟨d, []⟩
  ⟨carried.1, (filterFor r block).2, (filterFor r block).1, carried.2⟩

theorem run_of_request (h : parse args = .ok r) (tools : Tools) (block : Environment.Block)
    (d : Disk) : run tools args block d = .ok (finish tools r block d) := by
  rw [run, h]
  rfl

theorem run_eq_error_iff {u : Usage} :
    run tools args block d = .error u ↔ parse args = .error u := by
  cases hp : parse args with
  | error u' => rw [run_of_usage hp, Except.error.injEq, Except.error.injEq]
  | ok r =>
    rw [run_of_request hp]
    simp

/-- Why a request fails. The working directory cannot be named, or the request fails there. -/
def FailsWith (tools : Tools) (r : Request) (block : Environment.Block) (d : Disk)
    (f : Failure) : Prop :=
  workingDir d = .error f ∨
    ∃ cwd, workingDir d = .ok cwd ∧
      (r.execute tools cwd (Environment.ofProcess block) ⟨d, []⟩).1 = .error f

theorem finish_of_ok {cwd : Path} (h : workingDir d = .ok cwd) :
    finish tools r block d =
      let carried := r.carryOut tools cwd (Environment.ofProcess block) ⟨d, []⟩
      ⟨carried.1, (filterFor r block).2, (filterFor r block).1, carried.2⟩ := by
  simp only [finish, carryOut, h]

/-- A request that fails says nothing until then, and its status is that of the failure. -/
theorem finish_of_failure {f : Failure} (h : FailsWith tools r block d f) :
    ∃ w : World, w.said = [] ∧
      finish tools r block d =
        ⟨f.exitCode, (filterFor r block).2, (filterFor r block).1, w.tell f.events⟩ := by
  rcases h with hlost | ⟨cwd, hw, hx⟩
  · refine ⟨⟨d, []⟩, rfl, ?_⟩
    simp only [finish, carryOut, hlost]
    rfl
  · refine ⟨_, Request.said_of_execute_error hx, ?_⟩
    simp only [finish, carryOut, hw, Request.carryOut_of_error hx]

theorem reports_of_tool {f : Failure} {e : BuildError} (h : FailsWith tools r block d f)
    (he : f.toolError? = some e) :
    (finish tools r block d).status = f.exitCode ∧ (finish tools r block d).world.said = [] ∧
      (finish tools r block d).Reports (e.logged (finish tools r block d).filter) := by
  obtain ⟨w, hsaid, hfinish⟩ := finish_of_failure h
  rw [hfinish, Failure.events_of_tool he]
  refine ⟨rfl, ?_, Finished.reports_tell (f := ⟨_, _, _, w⟩) hsaid _⟩
  rw [World.said_tell, hsaid]
  rfl

theorem reports_of_no_tool {f : Failure} (h : FailsWith tools r block d f)
    (hnone : f.toolError? = none) :
    (finish tools r block d).status = 1 ∧
      (finish tools r block d).world.said = [(.errors, f.text)] ∧
      (finish tools r block d).Reports f.text.toUTF8 := by
  obtain ⟨w, hsaid, hfinish⟩ := finish_of_failure h
  rw [hfinish, Failure.events_of_no_tool hnone]
  refine ⟨Failure.exitCode_of_toolError?_eq_none hnone, ?_,
    Finished.reports_tell (f := ⟨_, _, _, w⟩) hsaid _⟩
  rw [World.said_tell, hsaid]
  rfl

theorem finish_status_eq_zero_iff :
    (finish tools r block d).status = 0 ↔
      ∃ cwd, workingDir d = .ok cwd ∧
        (r.execute tools cwd (Environment.ofProcess block) ⟨d, []⟩).1 = .ok () := by
  cases hw : workingDir d with
  | error f =>
    obtain ⟨w, -, hfinish⟩ := finish_of_failure (r := r) (.inl hw)
    rw [hfinish]
    exact ⟨fun h => absurd h (Nat.ne_of_gt f.exitCode_pos), nofun⟩
  | ok cwd =>
    rw [finish_of_ok hw]
    simp [Request.carryOut_status_eq_zero_iff]

theorem exists_failure (h : (finish tools r block d).status ≠ 0) :
    ∃ f, FailsWith tools r block d f := by
  cases hw : workingDir d with
  | error f => exact ⟨f, .inl hw⟩
  | ok cwd =>
    cases hx : (r.execute tools cwd (Environment.ofProcess block) ⟨d, []⟩).1 with
    | error f => exact ⟨f, .inr ⟨cwd, hw, hx⟩⟩
    | ok => exact absurd (finish_status_eq_zero_iff.mpr ⟨cwd, hw, hx⟩) h

theorem answers_of_request (h : parse args = .ok r) :
    answers tools args block d =
      match workingDir d with
      | .ok cwd => r.answers tools cwd (Environment.ofProcess block) ⟨d, []⟩
      | .error _ => [] := by
  rw [answers, h]
  cases workingDir d <;> rfl

/-- A tool that ends badly is why the request fails. -/
theorem failsWith_of_answer {c : Command} {outcome : Outcome} {e : BuildError}
    (hp : parse args = .ok r) (h : (c, .ok outcome) ∈ answers tools args block d)
    (hc : outcome.ending.check c = .error e) : FailsWith tools r block d (.ofError e) := by
  rw [answers_of_request hp] at h
  cases hw : workingDir d with
  | error f =>
    rw [hw] at h
    cases h
  | ok cwd =>
    rw [hw] at h
    exact .inr ⟨cwd, hw, Request.execute_of_answer h hc⟩

theorem toolError?_eq_none {f : Failure} (hp : parse args = .ok r)
    (h : FailsWith tools r block d f)
    (hgood : ∀ c outcome, (c, .ok outcome) ∈ answers tools args block d →
      outcome.ending = .exited 0) : f.toolError? = none := by
  rcases h with hlost | ⟨cwd, hw, hx⟩
  · exact toolError?_workingDir hlost
  · refine Option.eq_none_iff_forall_ne_some.mpr fun e he => ?_
    obtain ⟨c, outcome, ha, hc⟩ := Request.answer_of_execute hx he
    have hmem : (c, .ok outcome) ∈ answers tools args block d := by
      rw [answers_of_request hp, hw]
      exact ha
    rw [hgood c outcome hmem] at hc
    cases hc

theorem launches_eq_answers (tools : Tools) (args : List Token) (block : Environment.Block)
    (d : Disk) :
    (left d (run tools args block d)).launches = (answers tools args block d).map Prod.fst := by
  cases hp : parse args with
  | error u =>
    rw [run_of_usage hp, answers, hp]
    rfl
  | ok r =>
    rw [run_of_request hp, answers_of_request hp, left]
    cases hw : workingDir d with
    | error f =>
      simp only [finish, carryOut, hw]
      exact Failure.launches_tell_events ⟨d, []⟩ f
    | ok cwd =>
      rw [finish_of_ok hw]
      exact Request.launches_carryOut tools r cwd _ ⟨d, []⟩

theorem status_eq_zero_iff (tools : Tools) (args : List Token) (block : Environment.Block)
    (d : Disk) :
    status (run tools args block d) = 0 ↔
      parse args = .error .help ∨ parse args = .error .version ∨
      ∃ r cwd, parse args = .ok r ∧ workingDir d = .ok cwd ∧
        (r.execute tools cwd (Environment.ofProcess block) ⟨d, []⟩).1 = .ok () := by
  cases hp : parse args with
  | error u =>
    rw [run_of_usage hp]
    cases u <;> simp [status, Usage.exitCode]
  | ok r => simp [run_of_request hp, status, finish_status_eq_zero_iff]

theorem status_of_usage {u : Usage} (h : parse args = .error u) (hhelp : u ≠ .help)
    (hversion : u ≠ .version) (tools : Tools) (block : Environment.Block) (d : Disk) :
    status (run tools args block d) = 2 := by
  rw [run_of_usage h]
  cases u with
  | help => exact absurd rfl hhelp
  | version => exact absurd rfl hversion
  | _ => rfl

theorem run_of_answer {c : Command} {outcome : Outcome} {e : BuildError}
    (h : (c, .ok outcome) ∈ answers tools args block d)
    (hc : outcome.ending.check c = .error e) :
    ∃ f, run tools args block d = .ok f ∧ f.status = e.exitCode ∧ f.world.said = [] ∧
      f.Reports (e.logged f.filter) := by
  cases hp : parse args with
  | error u =>
    rw [answers, hp] at h
    cases h
  | ok r =>
    have htool : (Failure.ofError e).toolError? = some e :=
      Failure.toolError?_ofError_eq_some.mpr ⟨rfl, Ending.isCommandFailure_of_check hc⟩
    exact ⟨_, run_of_request hp _ _ _, reports_of_tool (failsWith_of_answer hp h hc) htool⟩

/-- The status of an invocation, and what is seen of its failure. -/
theorem status_and_report (tools : Tools) (args : List Token) (block : Environment.Block)
    (d : Disk) :
    let result := run tools args block d
    let answers := answers tools args block d
    (left d result).launches = answers.map Prod.fst ∧
    (status result = 0 ↔
      result = .error .help ∨ result = .error .version ∨
      ∃ r cwd, parse args = .ok r ∧ workingDir d = .ok cwd ∧
        (r.execute tools cwd (Environment.ofProcess block) ⟨d, []⟩).1 = .ok ()) ∧
    (∀ u, result = .error u → u ≠ .help → u ≠ .version →
      status result = 2 ∧ left d result = ⟨d, []⟩ ∧
      ∀ tools block d, run tools args block d = .error u) ∧
    (∀ c outcome code, (c, .ok outcome) ∈ answers → outcome.ending = .exited code → code ≠ 0 →
      ∃ f, result = .ok f ∧ f.status = code.toNat ∧ f.world.said = [] ∧
        f.Reports ((BuildError.commandFailed c.text (some code.toNat)).logged f.filter)) ∧
    (∀ c outcome, (c, .ok outcome) ∈ answers → outcome.ending = .killed →
      ∃ f, result = .ok f ∧ f.status = 1 ∧ f.world.said = [] ∧
        f.Reports ((BuildError.commandFailed c.text none).logged f.filter)) ∧
    (∀ f, result = .ok f → f.status ≠ 0 →
      (∀ c outcome, (c, .ok outcome) ∈ answers → outcome.ending = .exited 0) →
      ∃ r failure, parse args = .ok r ∧ FailsWith tools r block d failure ∧
        failure.toolError? = none ∧ f.status = 1 ∧
        let report := "✖ " ++ ": ".intercalate failure.chain ++ "\n"
        f.world.said = [(.errors, report)] ∧ f.Reports report.toUTF8) ∧
    ∀ (before : Finished) (e : BuildError) (contexts : List String),
      let f := contexts.foldl (fun f context => f.within context) (Failure.ofError e)
      f.exitCode = e.exitCode ∧ 1 ≤ e.exitCode ∧ e.exitCode ≤ 255 ∧
      { before with world := before.world.tell f.events }.errors = before.errors ++
        if e.isCommandFailure then e.logged before.filter
        else ("✖ " ++ ": ".intercalate (contexts.reverse ++ e.message :: e.cause?.toList) ++
          "\n").toUTF8 := by
  intro result answers
  refine ⟨launches_eq_answers tools args block d, ?_, fun u hu hhelp hversion => ?_,
    fun c outcome code hm hcode hne => ?_, fun c outcome hm hkilled => ?_,
    fun f hf hne hgood => ?_, fun before e contexts => ?_⟩
  · rw [run_eq_error_iff, run_eq_error_iff]
    exact status_eq_zero_iff tools args block d
  · have hparse := run_eq_error_iff.mp hu
    exact ⟨status_of_usage hparse hhelp hversion tools block d, by rw [hu, left],
      run_of_usage hparse⟩
  · have hcheck : outcome.ending.check c = .error (.commandFailed c.text (some code.toNat)) :=
      hcode ▸ Ending.check_exited hne
    obtain ⟨f, hf, hstatus, hreport⟩ := run_of_answer hm hcheck
    exact ⟨f, hf, hstatus.trans (Ending.exitCode_commandFailed c.text hne), hreport⟩
  · have hcheck : outcome.ending.check c = .error (.commandFailed c.text none) :=
      hkilled ▸ Ending.check_killed
    exact run_of_answer hm hcheck
  · cases hp : parse args with
    | error u => cases (run_of_usage hp tools block d).symm.trans hf
    | ok r =>
      obtain rfl : finish tools r block d = f :=
        Except.ok.inj ((run_of_request hp tools block d).symm.trans hf)
      obtain ⟨failure, hfails⟩ := exists_failure hne
      have hnone := toolError?_eq_none hp hfails hgood
      exact ⟨r, failure, rfl, hfails, hnone, reports_of_no_tool hfails hnone⟩
  · refine ⟨?_, e.exitCode_bounds.1, e.exitCode_bounds.2, before.errors_within e contexts⟩
    rw [Failure.foldl_within_ofError]
    rfl

end Endings

/-- A build tool that always fails. -/
def failingTools : Tools := fun _ d c => .ok ⟨⟨c.program, c.args, d.cwd, []⟩, d.tree, [], .exited 3⟩

def failingText : String :=
  "CARGO_TARGET_DIR=/target cargo build --target wasm32-unknown-unknown --release"

def failingError : BuildError := .commandFailed failingText (some 3)

def failingRecord : Log.Record := ⟨.debug, Request.logTarget, failingError.message⟩

def debugArgs : List Token := ["-vv", "--project-dir", "/", "--artifact", "a"].map Token.ofString

/-- Where lines of the log at level `debug` are shown, the report of the failure of a tool is. -/
theorem tool_failure_seen_at_debug :
    ∃ before finished : Finished, run failingTools debugArgs ⟨[]⟩ default = .ok finished ∧
      finished.status = 3 ∧
      finished =
        { before with world := before.world.tell (Failure.ofError failingError).events } ∧
      finished.errors = before.errors ++ failingRecord.line.toUTF8 ∧
      failingRecord.line = "[DEBUG] `" ++ failingText ++ "` a échoué (exit 3)\n" := by
  have hresult : (run failingTools debugArgs ⟨[]⟩ default).toOption.map (fun f =>
      (f.status, f.world.trace.getLast?, f.errorsOf (.log failingRecord))) =
      some (3, some (.log failingRecord), failingRecord.line.toUTF8) := by decide +kernel
  cases hrun : run failingTools debugArgs ⟨[]⟩ default with
  | error u =>
    rw [hrun] at hresult
    cases hresult
  | ok finished =>
    rw [hrun] at hresult
    obtain ⟨hstatus, hresult⟩ := Prod.mk.inj (Option.some.inj hresult)
    obtain ⟨hlast, hline⟩ := Prod.mk.inj hresult
    obtain ⟨earlier, htrace⟩ := List.getLast?_eq_some_iff.mp hlast
    let before : Finished := { finished with world := ⟨finished.world.disk, earlier⟩ }
    have htold : finished = { before with world := before.world.tell [.log failingRecord] } := by
      obtain ⟨status, complaints, filter, disk, trace⟩ := finished
      obtain rfl : trace = earlier ++ [.log failingRecord] := htrace
      rfl
    refine ⟨before, finished, rfl, hstatus, htold, ?_, by decide +kernel⟩
    calc finished.errors = before.errors ++ before.errorsOf (.log failingRecord) :=
          (congrArg Finished.errors htold).trans (before.errors_tell (.log failingRecord))
      _ = before.errors ++ failingRecord.line.toUTF8 := congrArg (before.errors ++ ·) hline

end Invocation

end WasmBuild
