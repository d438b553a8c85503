import WasmBuild.Proofs.FailFast
import WasmBuild.Proofs.Precedence
import WasmBuild.Proofs.Spelling
import WasmBuild.Proofs.Success

/-! Build tools that do what their environment and their arguments tell them. What such a tool
has built is delivered, whatever variables the environment or the flags file holds. -/

namespace WasmBuild

open WasmBuild.Path (IsName ofPieces)

namespace Command

def valueOf? (c : Command) (inherited : Environment) (key : String) : Option String :=
  (inherited.overlay c.env).last? key

def argumentAfter? (c : Command) (word : String) : Option String :=
  (c.args.dropWhile (· != word))[1]?

end Command

/-- The build tool has left content where its environment and its arguments told it, or, in
coverage mode, where the coverage wrapper puts it. -/
inductive Obeys (inherited : Environment) (mode : Mode) (c : Command) (artifact : String)
    (left : Disk) (content : ByteArray) : Prop where
  | cargo {dir target : String} (hdir : c.valueOf? inherited "CARGO_TARGET_DIR" = some dir)
      (htarget : c.argumentAfter? "--target" = some target)
      (hread : left.read ⟨dir ++ "/" ++ target ++ "/release/" ++ artifact⟩ = .ok content) :
      Obeys inherited mode c artifact left content
  | wrapper {dir target : String} (hmode : mode = .coverage)
      (hdir : c.valueOf? inherited "WASMCOV_DIR" = some dir)
      (htarget : c.argumentAfter? "--target" = some target)
      (hread : left.read ⟨dir ++ "/target/" ++ target ++ "/release/" ++ artifact⟩ = .ok content) :
      Obeys inherited mode c artifact left content

namespace Backend

variable (cfg : Config) (inherited : Environment)

theorem lookup_baseEnv (more : List Binding) :
    (baseEnv cfg ++ more).reverse.lookup "CARGO_TARGET_DIR" =
      (more.reverse.lookup "CARGO_TARGET_DIR").or (some cfg.targetRoot.text) := by
  rw [baseEnv, List.reverse_append, List.lookup_append, List.reverse_append]
  rfl

/-- No variable of the environment or of the flags file hides the target directory. -/
theorem valueOf?_targetDir :
    ((ofMode cfg.mode).command cfg).valueOf? inherited "CARGO_TARGET_DIR" =
      some cfg.targetRoot.text := by
  rw [Command.valueOf?, Environment.last?, Environment.overlay, List.reverse_append,
    List.lookup_append]
  cases cfg.mode with
  | standard =>
    have h := lookup_baseEnv cfg []
    rw [List.append_nil] at h
    simp only [ofMode, cargo, h]
    rfl
  | coverage =>
    simp only [ofMode, wasmcov, lookup_baseEnv]
    rfl

theorem valueOf?_coverageDir (h : cfg.mode = .coverage) :
    ((ofMode cfg.mode).command cfg).valueOf? inherited "WASMCOV_DIR" =
      some cfg.coverageDir.text := by
  rw [Command.valueOf?, Environment.last?, Environment.overlay, List.reverse_append,
    List.lookup_append, h]
  simp only [ofMode, wasmcov, List.reverse_append]
  rfl

theorem argumentAfter?_target :
    ((ofMode cfg.mode).command cfg).argumentAfter? "--target" = some cfg.target := by
  cases cfg.mode <;> rfl

end Backend

namespace Config

variable {d : Disk} {project : Path} {o : Overrides} {env : Environment} {cfg : Config}

theorem clean_of_resolve [Toml.Dialect] (hproject : project.isAbsolute = true)
    (h : resolve d project o env = .ok cfg) :
    cfg.targetDir.Clean ∧ cfg.coverageDir.Clean ∧ cfg.resDir.Clean := by
  obtain ⟨m, -, hsettle⟩ := resolve_eq_ok_iff.mp h
  obtain ⟨flags, artifact, -, -, rfl⟩ := settle_eq_ok_iff.mp hsettle
  exact ⟨Path.clean_resolve hproject _, Path.clean_resolve hproject _,
    Path.clean_resolve hproject _⟩

theorem clean_targetRoot (htarget : cfg.targetDir.Clean) (hcoverage : cfg.coverageDir.Clean) :
    cfg.targetRoot.Clean := by
  rw [targetRoot]
  cases cfg.mode with
  | standard => exact htarget
  | coverage => exact hcoverage.join (by decide)

theorem clean_source (htargetDir : cfg.targetDir.Clean) (hcoverageDir : cfg.coverageDir.Clean)
    (htarget : IsName cfg.target.toList) (hartifact : IsName cfg.artifact.toList) :
    cfg.source.Clean :=
  (((clean_targetRoot htargetDir hcoverageDir).join htarget).join
    (by decide : IsName "release".toList)).join hartifact

end Config

namespace Disk

variable {d : Disk} {p q : Path} {c : ByteArray}

theorem read_of_double_slash (hq : q.isAbsolute = true)
    (h : p.chars = q.chars ∨ p.chars = '/' :: q.chars) (hread : d.read p = .ok c) :
    d.read q = .ok c := by
  rcases h with h | h
  · rwa [← Path.ext_chars h]
  obtain ⟨loc, hloc, hfile⟩ := read_eq_ok_iff.mp hread
  obtain ⟨hsize, hfollow⟩ := locate_eq_ok_iff.mp hloc
  rw [follow_eq_ok_iff, Path.route_double_slash hq h, h, List.mem_cons, not_or] at hfollow
  have hshort : q.text.utf8ByteSize ≤ p.text.utf8ByteSize := by
    have htext : p.text = "/" ++ q.text := String.toList_injective (by
      rw [String.toList_append]
      exact h)
    rw [htext, String.utf8ByteSize_append]
    exact Nat.le_add_left _ _
  exact read_eq_ok_iff.mpr ⟨loc, locate_eq_ok_iff.mpr
    ⟨Nat.le_trans hshort hsize, follow_eq_ok_iff.mpr ⟨hfollow.1.2, hfollow.2⟩⟩, hfile⟩

/-- A file below a directory is read by the text that puts a slash between the two. -/
theorem read_below {ps qs : List Path.Piece} {text : String} (hqs : qs ≠ [])
    (htext : text.toList = (ofPieces true ps).chars ++ '/' :: List.intercalate ['/'] qs)
    (hread : d.read ⟨text⟩ = .ok c) : d.read (ofPieces true (ps ++ qs)) = .ok c := by
  have habsolute : (ofPieces true (ps ++ qs)).isAbsolute = true :=
    Path.isAbsolute_iff.mpr ⟨_, Path.chars_ofPieces true (ps ++ qs)⟩
  refine read_of_double_slash habsolute ?_ hread
  rcases @Path.chars_below ps qs hqs with hbelow | hbelow
  · exact .inl (htext.trans hbelow)
  · exact .inr (htext.trans hbelow)

end Disk

namespace Path

theorem isName_release : IsName "release".toList := by decide

theorem isName_target : IsName "target".toList := by decide

theorem join_release {ps : List Piece} {target artifact : String}
    (hps : ∀ piece ∈ ps, IsName piece) (htarget : IsName target.toList)
    (hartifact : IsName artifact.toList) :
    (((ofPieces true ps).join ⟨target⟩).join ⟨"release"⟩).join ⟨artifact⟩ =
      ofPieces true (ps ++ [target.toList, "release".toList, artifact.toList]) := by
  have hnames {qs : List Piece} {name : String} (hqs : ∀ piece ∈ qs, IsName piece)
      (hname : IsName name.toList) : ∀ piece ∈ qs ++ [name.toList], IsName piece := by
    simpa [or_imp, forall_and] using And.intro hqs hname
  rw [join_ofPieces hps htarget, join_ofPieces (hnames hps htarget) isName_release,
    join_ofPieces (hnames (hnames hps htarget) isName_release) hartifact]
  simp

end Path

namespace Build

variable {tools : Tools} {inherited : Environment} {cfg : Config} {w : World} {left : Disk}
  {content : ByteArray}

theorem read_source (htargetDir : cfg.targetDir.Clean) (hcoverageDir : cfg.coverageDir.Clean)
    (htarget : IsName cfg.target.toList) (hartifact : IsName cfg.artifact.toList)
    (h : Obeys inherited cfg.mode ((Backend.ofMode cfg.mode).command cfg) cfg.artifact left
      content) : left.read cfg.source = .ok content := by
  cases h with
  | @cargo dir target hdir ht hread =>
    obtain ⟨ps, hps, hnames⟩ := Config.clean_targetRoot htargetDir hcoverageDir
    obtain rfl : cfg.targetRoot.text = dir := by
      simpa [Backend.valueOf?_targetDir] using hdir
    obtain rfl : cfg.target = target := by simpa [Backend.argumentAfter?_target] using ht
    have hsource : cfg.source = ofPieces true
        (ps ++ [cfg.target.toList, "release".toList, cfg.artifact.toList]) := by
      rw [Config.source, hps, Path.join_release hnames htarget hartifact]
    rw [hsource]
    refine Disk.read_below (List.cons_ne_nil _ _) ?_ hread
    simp [hps, Path.chars, List.intercalate_cons_cons]
  | @wrapper dir target hmode hdir ht hread =>
    obtain ⟨ps, hps, hnames⟩ := hcoverageDir
    obtain rfl : cfg.coverageDir.text = dir := by
      simpa [Backend.valueOf?_coverageDir cfg inherited hmode] using hdir
    obtain rfl : cfg.target = target := by simpa [Backend.argumentAfter?_target] using ht
    have hroot : cfg.targetRoot = ofPieces true (ps ++ ["target".toList]) := by
      rw [Config.targetRoot, hmode, hps]
      exact Path.join_ofPieces hnames Path.isName_target
    have hsource : cfg.source = ofPieces true (ps ++ ["target".toList, cfg.target.toList,
        "release".toList, cfg.artifact.toList]) := by
      rw [Config.source, hroot, Path.join_release _ htarget hartifact]
      · simp
      · simpa [or_imp, forall_and] using And.intro hnames Path.isName_target
    rw [hsource]
    refine Disk.read_below (List.cons_ne_nil _ _) ?_ hread
    simp [hps, Path.chars, List.intercalate_cons_cons]

theorem run_ok_of_deliver {backend : Backend} {outcome : Outcome} {delivery : Delivery}
    {copied : Disk} (hoff : cfg.optimize.enabled = false)
    (htools : tools w.launches w.disk (backend.command cfg) = .ok outcome)
    (hend : outcome.ending = .exited 0)
    (hread : ({ w.disk with tree := outcome.tree } : Disk).read cfg.source = .ok content)
    (hdeliver : ({ w.disk with tree := outcome.tree } : Disk).deliver cfg.source cfg.destination =
      (.ok delivery, copied)) :
    ∃ report last, run tools backend cfg w = (.ok report, last) := by
  let plan := Plan.ofConfig backend cfg
  have hfinish : plan.finish = [] := by
    simp [plan, Plan.finish, Plan.ofConfig, hoff]
  have hfile := Disk.isFile_iff.mpr ⟨content, hread⟩
  have hpass : Stage.PassAll tools w.site plan.stages ⟨copied, w.launches ++ [plan.build]⟩ := by
    rw [Plan.stages, hfinish]
    exact .cons (.launch htools hend) (.cons (.check hfile) (.cons (.copy hdeliver) .nil))
  have hresult := (run_performs tools backend cfg).result w
  rw [Stage.performAll_eq_ok_iff.mpr hpass] at hresult
  rcases hrun : run tools backend cfg w with ⟨e | report, last⟩
  · rw [hrun] at hresult
    cases hresult
  · exact ⟨report, last, rfl⟩

/-- What an obedient tool has built is delivered, if a file can be written at the destination.
It can be read there, unless it was built in that file by way of a link and copied onto itself. -/
theorem run_of_obeys [Toml.Dialect] {d : Disk} {project : Path} {o : Overrides} {env : Environment}
    {outcome : Outcome} (hproject : project.isAbsolute = true)
    (hcfg : Config.resolve d project o env = .ok cfg) (hoff : cfg.optimize.enabled = false)
    (htarget : IsName cfg.target.toList) (hartifact : IsName cfg.artifact.toList)
    (htools : tools w.launches w.disk ((Backend.ofMode cfg.mode).command cfg) = .ok outcome)
    (hend : outcome.ending = .exited 0) (hleft : left = { w.disk with tree := outcome.tree })
    (hobeys : Obeys inherited cfg.mode ((Backend.ofMode cfg.mode).command cfg) cfg.artifact left
      content)
    (hlegal : cfg.destination.Legal) (hhold : left.CanHold (Location.ofPath cfg.destination)) :
    ∃ report last, run tools (Backend.ofMode cfg.mode) cfg w = (.ok report, last) ∧
      (last.disk.read cfg.destination = .ok content ↔
        content.size = 0 ∨
          ¬ (left.makeParent cfg.destination).2.Entangled cfg.source cfg.destination) ∧
      (left.Unlinked (Location.ofPath cfg.source) →
        last.disk.read cfg.destination = .ok content) := by
  obtain ⟨htargetDir, hcoverageDir, hresDir⟩ := Config.clean_of_resolve hproject hcfg
  have hread := read_source htargetDir hcoverageDir htarget hartifact hobeys
  have hspells := (hresDir.join hartifact).spells hlegal
  obtain ⟨delivery, copied, hdeliver⟩ := Disk.deliver_spells hread hspells hhold
  obtain ⟨report, last, hrun⟩ :=
    run_ok_of_deliver hoff htools hend (hleft ▸ hread) (hleft ▸ hdeliver)
  obtain ⟨-, -, -, build, c, delivery', copied', htools', -, hread', hdeliver', hlast, -⟩ :=
    run_eq_ok hrun
  obtain rfl : outcome = build := by simpa using htools.symm.trans htools'
  rw [← hleft] at hread' hdeliver'
  obtain rfl : content = c := by simpa using hread.symm.trans hread'
  have hreads : last.disk.read cfg.destination = .ok content ↔ content.size = 0 ∨
      ¬ (left.makeParent cfg.destination).2.Entangled cfg.source cfg.destination := by
    rw [(hlast hoff).1, Disk.place_reads_iff (Disk.read_makeParent hread _)
      (Disk.deliver_ok hread hdeliver').2, and_iff_right hlegal.size]
  have hsource := Config.clean_source htargetDir hcoverageDir htarget hartifact
  exact ⟨report, last, hrun, hreads, fun hlinks => hreads.mpr
    (.inr (Disk.not_entangled_spells hread hsource hlinks hspells hhold))⟩

def sampleCommand : Command := (Backend.ofMode sampleConfig.mode).command sampleConfig

/-- The sample tool is told where to leave the artifact and leaves it there, and nothing is at
the destination yet. -/
theorem sampleTools_obeys :
    ∃ outcome, sampleTools [] default sampleCommand = .ok outcome ∧ outcome.ending = .exited 0 ∧
      Obeys ⟨[("CARGO_TARGET_DIR", "/other")]⟩ sampleConfig.mode sampleCommand
        sampleConfig.artifact ⟨outcome.tree, []⟩ ⟨#[1]⟩ ∧
      (⟨outcome.tree, []⟩ : Disk).CanHold (Location.ofPath sampleConfig.destination) ∧
      ¬ ((⟨outcome.tree, []⟩ : Disk).makeParent sampleConfig.destination).2.Entangled
        sampleConfig.source sampleConfig.destination := by
  have hcheck : (sampleTools [] default sampleCommand).toOption.any (fun outcome =>
      outcome.ending = .exited 0 ∧
        ((⟨outcome.tree, []⟩ : Disk).read ⟨"/t/x/release/a"⟩).toOption = some ⟨#[1]⟩ ∧
        (⟨outcome.tree, []⟩ : Disk).CanHold (Location.ofPath sampleConfig.destination) ∧
        (Disk.settled (((⟨outcome.tree, []⟩ : Disk).makeParent sampleConfig.destination).2.follow
          .find sampleConfig.destination)).toOption = none) = true := by
    decide +kernel
  cases htools : sampleTools [] default sampleCommand with
  | error e => simp [htools, Except.toOption] at hcheck
  | ok outcome =>
    rw [htools] at hcheck
    obtain ⟨hend, hread, hhold, hvacant⟩ := of_decide_eq_true hcheck
    refine ⟨outcome, rfl, hend, @Obeys.cargo _ _ _ _ _ _ "/t" "x" ?_ ?_ ?_, hhold, ?_⟩
    · decide +kernel
    · decide +kernel
    · exact Except.eq_ok_of_toOption hread
    · rintro ⟨loc, -, hfollow, -⟩
      rw [Disk.settled_eq_ok_iff.mpr hfollow] at hvacant
      cases hvacant

theorem run_of_obeys_sample :
    Config.resolve default ⟨"/"⟩ ⟨.standard, none, none, some "a", some "x", none, none, none⟩
        ⟨[("CARGO_TARGET_DIR", "/t")]⟩ = .ok sampleConfig ∧
      ∃ report last, run sampleTools .cargo sampleConfig ⟨default, []⟩ = (.ok report, last) ∧
        last.disk.read sampleConfig.destination = .ok ⟨#[1]⟩ := by
  have hcfg : Config.resolve default ⟨"/"⟩
      ⟨.standard, none, none, some "a", some "x", none, none, none⟩
      ⟨[("CARGO_TARGET_DIR", "/t")]⟩ = .ok sampleConfig :=
    Except.eq_ok_of_toOption (by decide +kernel)
  obtain ⟨outcome, htools, hend, hobeys, hhold, hne⟩ := sampleTools_obeys
  obtain ⟨report, last, hrun, hread, -⟩ := @run_of_obeys _ _ _ ⟨default, []⟩ _ _ _ _ _ _ _ _
    (by decide +kernel) hcfg rfl (by decide) (by decide) htools hend rfl hobeys
    (by decide +kernel) hhold
  exact ⟨hcfg, report, last, hrun, hread.mpr (.inr hne)⟩

end Build

end WasmBuild
