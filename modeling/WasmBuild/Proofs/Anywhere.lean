import WasmBuild.Proofs.DryRun
import WasmBuild.Proofs.Obedience

/-! Where the process stands does not matter. An absolute path leads to the same place from
everywhere, and a request, once its directory is given, follows no other path; so it does the
same for every directory in which the process stands. -/

namespace WasmBuild

namespace Path

theorem isAbsolute_ofPieces_true (ps : List Piece) : (ofPieces true ps).isAbsolute = true :=
  isAbsolute_iff.mpr ⟨_, chars_ofPieces true ps⟩

theorem isAbsolute_of_mem_ancestors {p q : Path} (h : p.isAbsolute = true) (hq : q ∈ p.ancestors) :
    q.isAbsolute = true := by
  rcases List.mem_cons.mp hq with rfl | hm
  · exact h
  · rw [parents, h] at hm
    obtain ⟨ps, -, rfl⟩ := List.mem_map.mp hm
    exact isAbsolute_ofPieces_true ps.reverse

theorem isAbsolute_of_parent {p dir : Path} (h : p.isAbsolute = true)
    (hdir : p.parent? = some dir) : dir.isAbsolute = true :=
  isAbsolute_of_mem_ancestors h (List.mem_cons_of_mem p (List.mem_of_head? hdir))

theorem isAbsolute_resolve {base : Path} (h : base.isAbsolute = true) (p : Path) :
    (base.resolve p).isAbsolute = true := (clean_resolve h p).isAbsolute

end Path

theorem FileSystem.reach_absolute {fs : FileSystem} {purpose : Purpose} {route : Route}
    (h : route.absolute = true) (cwd cwd' : Location) :
    fs.reach purpose cwd route = fs.reach purpose cwd' route := by
  rw [reach, reach, if_pos h, if_pos h]

namespace Disk

/-- The disk as a process sees it that stands elsewhere. -/
def moveTo (d : Disk) (loc : Location) : Disk := { d with cwd := loc }

variable {d : Disk} {p : Path} {purpose : Purpose}

section Asking

theorem follow_moveTo (h : p.isAbsolute = true) (d : Disk) (loc : Location) :
    (d.moveTo loc).follow purpose p = d.follow purpose p := by
  have hroute : (Route.ofPath p).absolute = true := (Route.absolute_ofPath p).trans h
  have hreach : d.tree.reach purpose loc (Route.ofPath p) =
      d.tree.reach purpose d.cwd (Route.ofPath p) := FileSystem.reach_absolute hroute loc d.cwd
  rw [follow, follow, walk, walk, moveTo]
  simp only [hreach]

theorem reach_moveTo (h : p.isAbsolute = true) (d : Disk) (loc : Location) :
    (d.moveTo loc).reach purpose p = d.reach purpose p := by
  rw [reach, reach, follow_moveTo h]

theorem locate_moveTo (h : p.isAbsolute = true) (d : Disk) (loc : Location) :
    (d.moveTo loc).locate p = d.locate p := by
  rw [locate, locate, reach_moveTo h]

theorem trace_moveTo (h : p.isAbsolute = true) (d : Disk) (loc : Location) :
    (d.moveTo loc).trace p = d.trace p := by
  rw [trace, trace, follow_moveTo h]

theorem node?_moveTo (h : p.isAbsolute = true) (d : Disk) (loc : Location) :
    (d.moveTo loc).node? p = d.node? p := by
  rw [Disk.node?, Disk.node?, locate_moveTo h]
  rfl

theorem isDir_moveTo (h : p.isAbsolute = true) (d : Disk) (loc : Location) :
    (d.moveTo loc).isDir p = d.isDir p := by
  rw [isDir, isDir, node?_moveTo h]

theorem isFile_moveTo (h : p.isAbsolute = true) (d : Disk) (loc : Location) :
    (d.moveTo loc).isFile p = d.isFile p := by
  rw [isFile, isFile, node?_moveTo h]

theorem size_moveTo (h : p.isAbsolute = true) (d : Disk) (loc : Location) :
    (d.moveTo loc).size p = d.size p := by
  rw [size, size, locate_moveTo h]
  rfl

theorem read_moveTo (h : p.isAbsolute = true) (d : Disk) (loc : Location) :
    (d.moveTo loc).read p = d.read p := by
  rw [read, read, locate_moveTo h]
  rfl

theorem readText_moveTo (h : p.isAbsolute = true) (d : Disk) (loc : Location) :
    (d.moveTo loc).readText p = d.readText p := by
  rw [readText, readText, read_moveTo h]

theorem same_moveTo {q : Path} (h : p.isAbsolute = true) (hq : q.isAbsolute = true) (d : Disk)
    (loc : Location) : (d.moveTo loc).same p q = d.same p q := by
  rw [same, same, trace_moveTo h, trace_moveTo hq]

end Asking

section Changing

theorem makeDir_moveTo (h : p.isAbsolute = true) (d : Disk) (loc : Location) :
    (d.moveTo loc).makeDir p = (d.makeDir p).map fun made => made.moveTo loc := by
  rw [makeDir, makeDir, reach_moveTo h]
  rcases d.reach .claim p with e | (place | ⟨dir, name⟩) <;> rfl

theorem makeAlong_moveTo {ps : List Path} (h : ∀ p ∈ ps, p.isAbsolute = true) (d : Disk)
    (loc : Location) :
    (d.moveTo loc).makeAlong ps = ((d.makeAlong ps).1, (d.makeAlong ps).2.moveTo loc) := by
  -- Each attempt starts from what the one before has left, so the disk is any in the induction.
  induction ps generalizing d with
  | nil => rfl
  | cons p outer ih =>
    have hp := h p List.mem_cons_self
    have hrest := ih (fun q hq => h q (List.mem_cons_of_mem p hq)) d
    rw [makeAlong, makeAlong, makeDir_moveTo hp, hrest, isDir_moveTo hp]
    split
    · rfl
    cases d.makeDir p with
    | ok made => rfl
    | error e =>
      dsimp only [Except.map]
      split
      · rcases d.makeAlong outer with ⟨e' | ⟨⟩, left⟩
        · rfl
        · dsimp only
          rw [makeDir_moveTo hp, isDir_moveTo hp]
          cases left.makeDir p <;> rfl
      · rfl

theorem makeParent_moveTo (h : p.isAbsolute = true) (d : Disk) (loc : Location) :
    (d.moveTo loc).makeParent p = ((d.makeParent p).1, (d.makeParent p).2.moveTo loc) := by
  cases hdir : p.parent? with
  | none =>
    rw [makeParent, makeParent, hdir]
  | some dir =>
    have habs := Path.isAbsolute_of_parent h hdir
    have hancestors : ∀ q ∈ dir.ancestors, q.isAbsolute = true :=
      fun _ hq => Path.isAbsolute_of_mem_ancestors habs hq
    rw [makeParent, makeParent, hdir]
    dsimp only
    rw [makeDirs, makeDirs, makeAlong_moveTo hancestors]
    rcases d.makeAlong dir.ancestors with ⟨e | ⟨⟩, left⟩ <;> rfl

theorem setFile_moveTo (d : Disk) (place : Location) (content : ByteArray) (loc : Location) :
    (d.moveTo loc).setFile place content = (d.setFile place content).moveTo loc := by
  cases place <;> rfl

theorem openEmpty_moveTo (h : p.isAbsolute = true) (d : Disk) (loc : Location) :
    (d.moveTo loc).openEmpty p =
      (d.openEmpty p).map fun opened => (opened.1, opened.2.moveTo loc) := by
  have htree : (d.moveTo loc).tree = d.tree := rfl
  rw [openEmpty, openEmpty, reach_moveTo h, htree]
  rcases d.reach .write p with e | (place | ⟨dir, name⟩)
  · rfl
  · dsimp only
    rw [setFile_moveTo]
    split <;> rfl
  · rfl

theorem copy_moveTo {src dst : Path} (hsrc : src.isAbsolute = true)
    (hdst : dst.isAbsolute = true) (d : Disk) (loc : Location) :
    (d.moveTo loc).copy src dst = ((d.copy src dst).1, (d.copy src dst).2.moveTo loc) := by
  have htree : (d.moveTo loc).tree = d.tree := rfl
  rw [copy, copy, locate_moveTo hsrc, htree, openEmpty_moveTo hdst]
  cases d.locate src with
  | error e => rfl
  | ok place =>
    dsimp only
    split
    · cases d.openEmpty dst with
      | error e => rfl
      | ok opened =>
        obtain ⟨target, opened⟩ := opened
        have htree : (opened.moveTo loc).tree = opened.tree := rfl
        dsimp only [Except.map]
        rw [htree]
        split
        · rw [setFile_moveTo]
        · rfl
    · rfl

theorem place_moveTo {src dst : Path} (hsrc : src.isAbsolute = true)
    (hdst : dst.isAbsolute = true) (size : Nat) (d : Disk) (loc : Location) :
    (d.moveTo loc).place src dst size =
      ((d.place src dst size).1, (d.place src dst size).2.moveTo loc) := by
  rw [place, place, same_moveTo hsrc hdst, copy_moveTo hsrc hdst]
  split
  · rfl
  · rcases d.copy src dst with ⟨e | bytes, left⟩ <;> rfl

theorem deliver_moveTo {src dst : Path} (hsrc : src.isAbsolute = true)
    (hdst : dst.isAbsolute = true) (d : Disk) (loc : Location) :
    (d.moveTo loc).deliver src dst = ((d.deliver src dst).1, (d.deliver src dst).2.moveTo loc) := by
  rw [deliver, deliver, size_moveTo hsrc, makeParent_moveTo hdst]
  cases d.size src with
  | error e => rfl
  | ok size =>
    dsimp only
    rcases d.makeParent dst with ⟨e | ⟨⟩, left⟩
    · rfl
    · exact place_moveTo hsrc hdst size left loc

end Changing

end Disk

/-- Tools that take no notice of where the program stands that starts them. They run in the
directory of their command. -/
def IgnoreCaller (tools : Tools) : Prop :=
  ∀ earlier d loc c, c.cwd.isAbsolute = true →
    tools earlier (d.moveTo loc) c = tools earlier d c

namespace Toolbox

theorem enter_moveTo {dir : Path} (h : dir.isAbsolute = true) (d : Disk) (loc : Location) :
    enter (d.moveTo loc) dir = enter d dir := by
  rw [enter, enter, Disk.locate_moveTo h]
  rfl

theorem tools_ignoreCaller (box : Toolbox) (inherited : Environment.Block) :
    IgnoreCaller (box.tools inherited) := by
  intro earlier d loc c h
  rw [tools, tools, enter_moveTo h]
  rfl

end Toolbox

def World.moveTo (w : World) (loc : Location) : World := { w with disk := w.disk.moveTo loc }

/-- A part of a run that does the same wherever the process stands. -/
def Run.Anywhere {ε α : Type} (x : Run ε α) : Prop :=
  ∀ w loc, x (w.moveTo loc) = ((x w).1, (x w).2.moveTo loc)

namespace Run.Anywhere

variable {ε δ α β : Type}

theorem pure (a : α) : Anywhere (Pure.pure a : Run ε α) := fun _ _ => rfl

theorem emit (events : List Event) : Anywhere (Run.emit events : Run ε Unit) := fun _ _ => rfl

theorem bind {x : Run ε α} {f : α → Run ε β} (hx : Anywhere x)
    (hf : ∀ w a left, x w = (.ok a, left) → Anywhere (f a)) : Anywhere (x >>= f) := by
  intro w loc
  rw [Run.bind_apply, Run.bind_apply, hx]
  rcases h : x w with ⟨e | a, left⟩
  · rfl
  · exact hf w a left h left loc

theorem within (around : ε → δ) {x : Run ε α} (hx : Anywhere x) :
    Anywhere (Run.within around x) := by
  intro w loc
  rw [Run.within_apply, Run.within_apply, hx]

theorem ask {question : Disk → Except ε α}
    (h : ∀ d loc, question (d.moveTo loc) = question d) : Anywhere (Run.ask question) := by
  intro w loc
  rw [Run.ask_apply, Run.ask_apply]
  exact Prod.ext (h w.disk loc) rfl

theorem act {change : Disk → Except ε α × Disk}
    (h : ∀ d loc, change (d.moveTo loc) = ((change d).1, (change d).2.moveTo loc)) :
    Anywhere (Run.act change) := by
  intro w loc
  have hchange : change (w.moveTo loc).disk = _ := h w.disk loc
  rw [Run.act_apply, Run.act_apply, hchange]
  rfl

theorem command {tools : Tools} (htools : IgnoreCaller tools) {c : Command}
    (h : c.cwd.isAbsolute = true) : Anywhere (c.run tools) := by
  intro w loc
  have hc : tools (w.moveTo loc).launches (w.moveTo loc).disk c =
      tools w.launches w.disk c := htools w.launches w.disk loc c h
  rw [Command.run_apply, Command.run_apply, Command.attempt, Command.attempt, Command.seen,
    Command.seen, hc]
  cases tools w.launches w.disk c <;> rfl

end Run.Anywhere

theorem Build.run_anywhere {tools : Tools} {backend : Backend} {cfg : Config}
    (htools : IgnoreCaller tools) (hcommand : (backend.command cfg).cwd.isAbsolute = true)
    (hproject : cfg.projectDir.isAbsolute = true) (hsource : cfg.source.isAbsolute = true)
    (hdestination : cfg.destination.isAbsolute = true) :
    Run.Anywhere (run tools backend cfg) := by
  refine run_closed .pure .bind (fun _ _ _ _ => .emit _) (.command htools hcommand)
    (.ask fun d loc => ?_) (.act (Disk.deliver_moveTo hsource hdestination))
    (.command htools hproject) (.ask fun d loc => ?_)
  · rw [checkArtifact, checkArtifact, Disk.isFile_moveTo hsource]
  · rw [measure, measure, Disk.size_moveTo hdestination]

namespace Config

variable {project : Path}

theorem manifestFor_moveTo [Toml.Dialect] (h : project.isAbsolute = true) (o : Overrides) (d : Disk)
    (loc : Location) : manifestFor (d.moveTo loc) project o = manifestFor d project o := by
  rw [manifestFor, manifestFor]
  cases o.manifest with
  | some p =>
    have hp := Path.isAbsolute_resolve h p
    dsimp only
    rw [Manifest.load, Manifest.load, Disk.readText_moveTo hp]
  | none =>
    have hp : (project.join ⟨manifestName⟩).isAbsolute = true := Path.isAbsolute_join h
    dsimp only
    rw [Manifest.loadOrEmpty, Manifest.loadOrEmpty, Disk.readText_moveTo hp]

theorem settle_moveTo [Toml.Dialect] (h : project.isAbsolute = true) (o : Overrides)
    (env : Environment) (m : Manifest) (d : Disk) (loc : Location) :
    settle (d.moveTo loc) project o env m = settle d project o env m := by
  have hflags : loadFlags (d.moveTo loc) (flagsPath? project o env m) =
      loadFlags d (flagsPath? project o env m) := by
    rw [flagsPath?]
    cases o.flagsFile <|> (env.get? flagsFileKey).map Path.mk <|> m.flagsFile.map Path.mk with
    | none => rfl
    | some p =>
      have hp := Path.isAbsolute_resolve h p
      rw [Option.map_some, loadFlags, loadFlags, Flags.load, Flags.load, Disk.readText_moveTo hp]
  have hartifact : artifactFor (d.moveTo loc) project o m = artifactFor d project o m := by
    have hp : (project.join ⟨packageName⟩).isAbsolute = true := Path.isAbsolute_join h
    rw [artifactFor, artifactFor, Package.loadArtifact, Package.loadArtifact,
      Disk.readText_moveTo hp]
  rw [settle, settle, hflags, hartifact]

theorem resolve_moveTo [Toml.Dialect] (h : project.isAbsolute = true) (o : Overrides)
    (env : Environment) (d : Disk) (loc : Location) :
    resolve (d.moveTo loc) project o env = resolve d project o env := by
  rw [resolve, resolve, manifestFor_moveTo h]
  cases manifestFor d project o with
  | error e => rfl
  | ok m => exact settle_moveTo h o env m d loc

theorem notes_moveTo [Toml.Dialect] (h : project.isAbsolute = true) (o : Overrides)
    (env : Environment) (d : Disk) (loc : Location) :
    notes (d.moveTo loc) project o env = notes d project o env := by
  rw [notes, notes, manifestFor_moveTo h]

theorem projectDir_of_resolve [Toml.Dialect] {d : Disk} {o : Overrides} {env : Environment}
    {cfg : Config} (h : resolve d project o env = .ok cfg) : cfg.projectDir = project := by
  obtain ⟨m, -, hsettle⟩ := resolve_eq_ok_iff.mp h
  obtain ⟨flags, artifact, -, -, rfl⟩ := settle_eq_ok_iff.mp hsettle
  rfl

end Config

namespace Project

variable {cwd : Path}

theorem isMarked_moveTo {dir : Path} (h : dir.isAbsolute = true) (d : Disk) (loc : Location) :
    isMarked (d.moveTo loc) dir = isMarked d dir :=
  Disk.isFile_moveTo (Path.isAbsolute_join h) d loc

theorem choose_moveTo (h : cwd.isAbsolute = true) (explicit : Option Path) (d : Disk)
    (loc : Location) : choose (d.moveTo loc) explicit cwd = choose d explicit cwd := by
  cases explicit with
  | some p => rfl
  | none =>
    have hmarks : ∀ q ∈ cwd.ancestors, isMarked (d.moveTo loc) q = isMarked d q :=
      fun q hq => isMarked_moveTo (Path.isAbsolute_of_mem_ancestors h hq) d loc
    rw [choose_none, choose_none, ← List.head?_filter, ← List.head?_filter,
      List.filter_congr hmarks]

theorem isAbsolute_of_choose {explicit : Option Path} {d : Disk} {p : Path}
    (h : cwd.isAbsolute = true) (hp : choose d explicit cwd = .ok p) : p.isAbsolute = true := by
  cases explicit with
  | some q =>
    obtain rfl : cwd.resolve q = p := Except.ok.inj hp
    exact Path.isAbsolute_resolve h q
  | none =>
    rw [choose_none] at hp
    cases hfind : cwd.ancestors.find? (isMarked d) with
    | none =>
      rw [hfind] at hp
      cases hp
    | some dir =>
      rw [hfind] at hp
      obtain rfl : dir = p := Except.ok.inj hp
      exact Path.isAbsolute_of_mem_ancestors h (List.mem_of_find?_eq_some hfind)

theorem canonical_moveTo {p : Path} (h : p.isAbsolute = true) (d : Disk) (loc : Location) :
    canonical (d.moveTo loc) p = canonical d p := by
  rw [canonical, canonical, Disk.trace_moveTo h]

theorem isAbsolute_of_canonical {d : Disk} {p project : Path}
    (h : canonical d p = .ok project) : project.isAbsolute = true := by
  rw [canonical] at h
  split at h
  · cases h
  · split at h
    · next path hpath =>
      obtain rfl : path = project := Except.ok.inj h
      obtain ⟨names, -, rfl⟩ := Option.map_eq_some_iff.mp hpath
      exact Path.isAbsolute_ofPieces_true _
    · cases h

theorem find_moveTo (h : cwd.isAbsolute = true) (explicit : Option Path) (d : Disk)
    (loc : Location) : find (d.moveTo loc) explicit cwd = find d explicit cwd := by
  rw [find, find, choose_moveTo h]
  cases hp : choose d explicit cwd with
  | error e => rfl
  | ok p => exact canonical_moveTo (isAbsolute_of_choose h hp) d loc

theorem isAbsolute_of_find {explicit : Option Path} {d : Disk} {project : Path}
    (h : find d explicit cwd = .ok project) : project.isAbsolute = true := by
  rw [find] at h
  cases hp : choose d explicit cwd with
  | error e =>
    rw [hp] at h
    cases h
  | ok p =>
    rw [hp] at h
    exact isAbsolute_of_canonical h

end Project

namespace Request

variable {tools : Tools} {r : Request} {cwd : Path}

theorem configuration_moveTo [Toml.Dialect] (h : cwd.isAbsolute = true) (r : Request)
    (env : Environment) (d : Disk) (loc : Location) :
    r.configuration cwd env (d.moveTo loc) = r.configuration cwd env d := by
  have hproject : r.project cwd (d.moveTo loc) = r.project cwd d := Project.find_moveTo h _ d loc
  rw [configuration, configuration, hproject]
  cases hp : r.project cwd d with
  | error e => rfl
  | ok project =>
    dsimp only
    rw [Config.resolve_moveTo (Project.isAbsolute_of_find hp)]

theorem notes_moveTo [Toml.Dialect] (h : cwd.isAbsolute = true) (r : Request)
    (env : Environment) (d : Disk) (loc : Location) :
    r.notes cwd env (d.moveTo loc) = r.notes cwd env d := by
  have hproject : r.project cwd (d.moveTo loc) = r.project cwd d := Project.find_moveTo h _ d loc
  rw [notes, notes, projectNotes, projectNotes, hproject]
  cases hp : r.project cwd d with
  | error e => rfl
  | ok project =>
    dsimp only
    rw [Config.notes_moveTo (Project.isAbsolute_of_find hp)]

theorem conclude_anywhere [Toml.Dialect] {env : Environment} {d : Disk} {cfg : Config}
    (htools : IgnoreCaller tools) (h : r.configuration cwd env d = .ok cfg) :
    Run.Anywhere (r.conclude tools cfg) := by
  rw [conclude]
  cases r.dryRun with
  | true => exact .emit _
  | false =>
    obtain ⟨project, hp, hcfg⟩ := configuration_eq_ok_iff.mp h
    have hproject : project.isAbsolute = true := Project.isAbsolute_of_find hp
    obtain ⟨htargetDir, hcoverageDir, hresDir⟩ := Config.clean_of_resolve hproject hcfg
    have hroot := (Config.clean_targetRoot htargetDir hcoverageDir).isAbsolute
    have hsource : cfg.source.isAbsolute = true :=
      Path.isAbsolute_join (Path.isAbsolute_join (Path.isAbsolute_join hroot))
    have hdestination : cfg.destination.isAbsolute = true := Path.isAbsolute_join hresDir.isAbsolute
    have hdir : cfg.projectDir.isAbsolute = true :=
      (Config.projectDir_of_resolve hcfg).symm ▸ hproject
    have hcommand : ((Backend.ofMode cfg.mode).command cfg).cwd.isAbsolute = true := by
      cases cfg.mode <;> exact hdir
    exact .bind (.within _ (Build.run_anywhere htools hcommand hdir hsource hdestination))
      fun _ _ _ _ => .emit _

/-- A request does the same wherever the process stands. -/
theorem execute_anywhere [Toml.Dialect] (htools : IgnoreCaller tools)
    (h : cwd.isAbsolute = true) (r : Request) (env : Environment) :
    Run.Anywhere (r.execute tools cwd env) := by
  intro w loc
  have hconfiguration : r.configuration cwd env (w.moveTo loc).disk =
      r.configuration cwd env w.disk := configuration_moveTo h r env w.disk loc
  have hnotes : r.notes cwd env (w.moveTo loc).disk = r.notes cwd env w.disk :=
    notes_moveTo h r env w.disk loc
  rw [execute_apply, execute_apply, hconfiguration, hnotes]
  cases hc : r.configuration cwd env w.disk with
  | error f => rfl
  | ok cfg => exact conclude_anywhere htools hc (w.tell (r.notes cwd env w.disk)) loc

end Request

end WasmBuild
