import WasmBuild.Proofs.Copying
import WasmBuild.Proofs.Runs
import WasmBuild.Toolbox.Basic

/-! What a run that succeeds has done. The artifact is where it was built and where it was to
be delivered, and beside the tools nothing else was changed. -/

namespace WasmBuild

theorem Except.eq_ok_of_toOption {ε α : Type} {x : Except ε α} {a : α}
    (h : x.toOption = some a) : x = .ok a := by
  cases x with
  | error e => cases h
  | ok b => exact congrArg Except.ok (Option.some.inj h)

theorem Command.run_eq_ok {tools : Tools} {c : Command} {w left : World}
    (h : c.run tools w = (.ok (), left)) :
    ∃ outcome, tools w.launches w.disk c = .ok outcome ∧ outcome.ending = .exited 0 ∧
      left.disk = { w.disk with tree := outcome.tree } ∧ left.launches = w.launches ++ [c] := by
  have hlaunches := c.run_launches tools w
  rw [h] at hlaunches
  rw [run_apply, Prod.mk.injEq] at h
  obtain ⟨outcome, htools, hend, hdisk⟩ := attempt_eq_ok_iff.mp (Prod.ext h.1 rfl)
  exact ⟨outcome, htools, hend, by rw [← h.2, ← hdisk], hlaunches⟩

namespace Build

variable {tools : Tools} {backend : Backend} {cfg : Config} {w left : World}

theorem compile_eq_ok {source : Path} (h : compile tools backend cfg w = (.ok source, left)) :
    source = cfg.source ∧ ∃ outcome c,
      tools w.launches w.disk (backend.command cfg) = .ok outcome ∧
      outcome.ending = .exited 0 ∧ left.disk = { w.disk with tree := outcome.tree } ∧
      left.launches = w.launches ++ [backend.command cfg] ∧ left.disk.read cfg.source = .ok c := by
  obtain ⟨⟨⟩, middle, hrun, hask⟩ := Run.bind_eq_ok h
  obtain ⟨outcome, htools, hend, hdisk, hlaunches⟩ := Command.run_eq_ok hrun
  rw [Run.ask_apply, Prod.mk.injEq, checkArtifact] at hask
  obtain ⟨hcheck, rfl⟩ := hask
  split at hcheck
  · next hfile =>
    obtain ⟨c, hread⟩ := Disk.isFile_iff.mp hfile
    exact ⟨(Except.ok.inj hcheck).symm, outcome, c, htools, hend, hdisk, hlaunches, hread⟩
  · cases hcheck

theorem deliver_eq_ok {src dst : Path} {bytes : Nat} (h : deliver src dst w = (.ok bytes, left)) :
    ∃ delivery, w.disk.deliver src dst = (.ok delivery, left.disk) ∧ bytes = delivery.bytes ∧
      left.launches = w.launches := by
  obtain ⟨delivery, middle, hact, hrest⟩ := Run.bind_eq_ok h
  rw [Run.act_apply, Prod.mk.injEq] at hact
  obtain ⟨hresult, rfl⟩ := hact
  refine ⟨delivery, ?_⟩
  cases hcopied : delivery.copied with
  | true =>
    simp only [hcopied, Bool.not_true, Bool.false_eq_true, if_false] at hrest
    cases hrest
    exact ⟨Prod.ext hresult rfl, rfl, rfl⟩
  | false =>
    simp only [hcopied, Bool.not_false, if_true, Run.bind_apply, Run.log_apply] at hrest
    cases hrest
    exact ⟨Prod.ext hresult rfl, rfl, World.launches_log _ _ _⟩

theorem optimize_eq_ok {bytes : Nat} (h : optimize tools cfg w = (.ok bytes, left)) :
    ∃ outcome, tools w.launches w.disk (cfg.optimize.command cfg.destination cfg.projectDir) =
        .ok outcome ∧
      outcome.ending = .exited 0 ∧ left.disk = { w.disk with tree := outcome.tree } ∧
      left.disk.size cfg.destination = .ok bytes := by
  obtain ⟨⟨⟩, middle, hrun, hrest⟩ := Run.bind_eq_ok h
  obtain ⟨size, measured, hask, hrest⟩ := Run.bind_eq_ok hrest
  obtain ⟨outcome, htools, hend, hdisk, -⟩ := Command.run_eq_ok hrun
  rw [Run.ask_apply, Prod.mk.injEq, measure] at hask
  obtain ⟨hsize, rfl⟩ := hask
  simp only [Run.bind_apply, Run.log_apply] at hrest
  cases hrest
  refine ⟨outcome, htools, hend, hdisk, ?_⟩
  cases hresult : middle.disk.size cfg.destination with
  | error e => simp [hresult] at hsize
  | ok bytes => simpa [hresult] using hsize

theorem log_bind {α : Type} {level : Log.Level} {target message : String}
    {rest : Unit → Run BuildError α} {result : Except BuildError α × World}
    (h : (Run.log level target message >>= rest) w = result) :
    rest () { w with trace := w.trace ++ [.log ⟨level, target, message⟩] } = result := by
  rwa [Run.bind_apply, Run.log_apply] at h

/-- A run that succeeds has gone through a build, a delivery and, where it was asked for, the
optimizing step. -/
theorem run_eq_ok {report : Report} {last : World}
    (h : run tools backend cfg w = (.ok report, last)) :
    report.mode = cfg.mode ∧ report.artifact = cfg.destination ∧
      report.optimized = cfg.optimize.enabled ∧
      ∃ build c delivery copied, tools w.launches w.disk (backend.command cfg) = .ok build ∧
        build.ending = .exited 0 ∧
        let built : Disk := { w.disk with tree := build.tree }
        built.read cfg.source = .ok c ∧
        built.deliver cfg.source cfg.destination = (.ok delivery, copied) ∧
        (cfg.optimize.enabled = false → last.disk = copied ∧ report.bytes = delivery.bytes) ∧
        (cfg.optimize.enabled = true → ∃ optimized,
          tools (w.launches ++ [backend.command cfg]) copied
              (cfg.optimize.command cfg.destination cfg.projectDir) = .ok optimized ∧
            optimized.ending = .exited 0 ∧ last.disk = { copied with tree := optimized.tree } ∧
            last.disk.size cfg.destination = .ok report.bytes) := by
  obtain ⟨source, made, hcompile, h⟩ := Run.bind_eq_ok (log_bind h)
  obtain ⟨rfl, build, c, htools, hend, hbuilt, hlaunches, hread⟩ := compile_eq_ok hcompile
  rw [World.launches_log] at htools hlaunches
  obtain ⟨bytes, placed, hdeliver, h⟩ := Run.bind_eq_ok (log_bind h)
  obtain ⟨delivery, hdelivery, rfl, hplaced⟩ := deliver_eq_ok hdeliver
  dsimp only at hdelivery
  rw [hbuilt] at hread hdelivery
  have hlaunches : placed.launches = w.launches ++ [backend.command cfg] := by
    rw [hplaced, World.launches_log, hlaunches]
  replace h := log_bind h
  split at h
  · next hon =>
    obtain ⟨size, _, hoptimize, h⟩ := Run.bind_eq_ok h
    obtain ⟨optimized, hrun, hend', hdisk, hsize⟩ := optimize_eq_ok hoptimize
    cases h
    refine ⟨rfl, rfl, hon.symm, build, c, delivery, placed.disk, htools, hend, hread, hdelivery,
      fun hoff => ?_, fun _ => ⟨optimized, ?_, hend', hdisk, hsize⟩⟩
    · simp [hon] at hoff
    · rw [← hlaunches, ← hrun, World.launches_log]
  · next hoff =>
    cases h
    exact ⟨rfl, rfl, by simpa using hoff, build, c, delivery, placed.disk, htools, hend, hread,
      hdelivery, fun _ => ⟨rfl, rfl⟩, fun hon => absurd hon hoff⟩

/-- A run that succeeds reports what was asked for. The content that the build tool left can
be read where it was built and where it was to be delivered, exactly when the path of the
destination can be opened and no file with content was copied onto itself. -/
theorem run_succeeds {report : Report} {last : World}
    (h : run tools backend cfg w = (.ok report, last)) :
    report.mode = cfg.mode ∧ report.artifact = cfg.destination ∧
      report.optimized = cfg.optimize.enabled ∧
      ∃ build c, tools w.launches w.disk (backend.command cfg) = .ok build ∧
        build.ending = .exited 0 ∧
        let built : Disk := { w.disk with tree := build.tree }
        let ready := (built.makeParent cfg.destination).2
        let copied := (built.deliver cfg.source cfg.destination).2
        built.read cfg.source = .ok c ∧ built.Receives copied cfg.destination ∧
        (copied.read cfg.source = .ok c ∧ copied.read cfg.destination = .ok c ∧
            (cfg.optimize.enabled = false → report.bytes = c.size) ↔
          cfg.destination.text.utf8ByteSize ≤ FileSystem.maxPath ∧
            (c.size = 0 ∨ ¬ ready.Entangled cfg.source cfg.destination)) ∧
        (cfg.optimize.enabled = false → last.disk = copied) ∧
        (cfg.optimize.enabled = true → ∃ optimized,
          tools (w.launches ++ [backend.command cfg]) copied
              (cfg.optimize.command cfg.destination cfg.projectDir) = .ok optimized ∧
            optimized.ending = .exited 0 ∧ last.disk = { copied with tree := optimized.tree } ∧
            last.disk.size cfg.destination = .ok report.bytes) := by
  obtain ⟨hmode, hartifact, hoptimized, build, c, delivery, copied, htools, hend, hread, hdelivery,
    hoff, hon⟩ := run_eq_ok h
  have hready := Disk.read_makeParent hread cfg.destination
  have hplace := (Disk.deliver_ok hread hdelivery).2
  obtain ⟨content, hsrc, hbytes, hdst⟩ := Disk.place_content hready hplace
  refine ⟨hmode, hartifact, hoptimized, build, c, htools, hend, hread, ?_⟩
  rw [hdelivery]
  refine ⟨Disk.deliver_receives hread hdelivery, ?_, fun h => (hoff h).1, hon⟩
  rw [← Disk.place_reads_iff hready hplace]
  refine ⟨fun h => h.2.1, fun h => ?_⟩
  obtain rfl : c = content := hdst c h
  exact ⟨hsrc, h, fun h => (hoff h).2.trans hbytes⟩

def sampleTools : Tools :=
  Toolbox.tools
    ⟨[⟨"cargo", .byName,
      ⟨[], [.edit (.write "$CARGO_TARGET_DIR/x/release/a".toUTF8 ⟨#[1]⟩)], .exited 0⟩⟩]⟩ ⟨[]⟩

def sampleConfig : Config :=
  ⟨.standard, ⟨"/"⟩, ⟨"/t"⟩, "x", "a", ⟨"/res"⟩, "cargo", ⟨"/wasmcov"⟩, none, [], .standard⟩

theorem run_succeeds_sample :
    ∃ report last built, run sampleTools .cargo sampleConfig ⟨default, []⟩ = (.ok report, last) ∧
      report.artifact = ⟨"/res/a"⟩ ∧ Disk.Receives built last.disk ⟨"/res/a"⟩ := by
  let result := run sampleTools .cargo sampleConfig ⟨default, []⟩
  have hok : result.1.toOption = some ⟨.standard, ⟨"/res/a"⟩, 1, false⟩ := by decide +kernel
  have h : result = (.ok ⟨.standard, ⟨"/res/a"⟩, 1, false⟩, result.2) :=
    Prod.ext (Except.eq_ok_of_toOption hok) rfl
  obtain ⟨-, -, -, build, c, -, -, -, hreceives, -, hoff, -⟩ := run_succeeds h
  exact ⟨_, result.2, _, h, rfl, hoff rfl ▸ hreceives⟩

end Build

end WasmBuild
