import WasmBuild.Proofs.Canonical

/-! The directory of the caller does not matter. A request does the same from the directory of its
project, from any directory below that has no nearer project, and from anywhere when the project
is named. -/

namespace WasmBuild

theorem Disk.IsCanonicalDir.moveTo {d : Disk} {p : Path} (h : d.IsCanonicalDir p)
    (loc : Location) : (d.moveTo loc).IsCanonicalDir p := h

namespace Request

/-- The request with a project directory that is named, or is to be found. -/
def inProject (r : Request) (dir : Option Path) : Request :=
  { r with value := fun s => if s = .projectDir then dir.map Path.text else r.value s }

variable {d : Disk} {project c : Path}

theorem project_inProject (r : Request) (dir : Option Path) (cwd : Path) (d : Disk) :
    (r.inProject dir).project cwd d = Project.find d dir cwd := by
  cases dir <;> rfl

/-- What a request does depends on the directory of the caller by its project only. -/
theorem execute_inProject [Toml.Dialect] {cwd cwd' : Path} {dir dir' : Option Path} (w : World)
    (h : Project.find w.disk dir cwd = Project.find w.disk dir' cwd') (tools : Tools)
    (r : Request) (env : Environment) :
    (r.inProject dir).execute tools cwd env w = (r.inProject dir').execute tools cwd' env w := by
  have hproject : (r.inProject dir).project cwd w.disk =
      (r.inProject dir').project cwd' w.disk := by
    rw [project_inProject, project_inProject, h]
  have hconfiguration : (r.inProject dir).configuration cwd env w.disk =
      (r.inProject dir').configuration cwd' env w.disk := by
    rw [configuration, configuration, hproject]
    rfl
  have hnotes : (r.inProject dir).notes cwd env w.disk =
      (r.inProject dir').notes cwd' env w.disk := by
    rw [notes, notes, projectNotes, projectNotes, hproject]
    rfl
  rw [execute_apply, execute_apply, hconfiguration, hnotes]
  rfl

theorem execute_named [Toml.Dialect] (w : World) (hproject : w.disk.IsCanonicalDir project)
    (hmarked : Project.isMarked w.disk project = true) (e : Path) (tools : Tools) (r : Request)
    (env : Environment) :
    (r.inProject (some project)).execute tools e env w =
      (r.inProject none).execute tools project env w := by
  have hnamed := Project.find_named hproject hmarked e
  exact execute_inProject w (hnamed.trans (Project.find_self hproject hmarked).symm) tools r env

/-- A request does the same from its project, from a directory below it with no marked directory
on the way, and from anywhere when the project is named. It does so even where the process
stands elsewhere, if the tools take no notice of that. -/
theorem execute_from_anywhere [Toml.Dialect] (hproject : d.IsCanonicalDir project)
    (hmarked : Project.isMarked d project = true) (hc : d.IsCanonicalDir c)
    (hbelow : c.Within project) (hunmarked : Project.isMarked d c = false)
    (hbetween : ∀ q, d.IsCanonicalDir q → c.Within q → q.Within project →
      Project.isMarked d q = false)
    (e : Path) (r : Request) (env : Environment) (trace : List Event) :
    let found := r.inProject none
    let named := r.inProject (some project)
    let w : World := ⟨d, trace⟩
    (∀ tools,
      found.execute tools c env w = found.execute tools project env w ∧
      named.execute tools e env w = found.execute tools project env w) ∧
    ∀ tools, IgnoreCaller tools → ∀ atC atProject atE : Location,
      let fromC := found.execute tools c env (w.moveTo atC)
      let fromProject := found.execute tools project env (w.moveTo atProject)
      let fromE := named.execute tools e env (w.moveTo atE)
      fromC.1 = fromProject.1 ∧ fromC.2.disk.tree = fromProject.2.disk.tree ∧
      fromC.2.trace = fromProject.2.trace ∧
      fromE.1 = fromProject.1 ∧ fromE.2.disk.tree = fromProject.2.disk.tree ∧
      fromE.2.trace = fromProject.2.trace := by
  intro found named w
  have hfound := Project.find_below hproject hmarked hc hbelow hunmarked hbetween
  have hfind : Project.find w.disk none c = Project.find w.disk none project :=
    hfound.trans (Project.find_self hproject hmarked).symm
  have hsame : ∀ tools, found.execute tools c env w = found.execute tools project env w :=
    fun tools => execute_inProject w hfind tools r env
  refine ⟨fun tools => ⟨hsame tools, execute_named w hproject hmarked e tools r env⟩, ?_⟩
  intro tools htools atC atProject atE fromC fromProject fromE
  have hmarkedE : Project.isMarked (d.moveTo atE) project = true := by
    rw [Project.isMarked_moveTo hproject.clean.isAbsolute, hmarked]
  have hanywhere : ∀ loc, found.execute tools project env (w.moveTo loc) =
      ((found.execute tools project env w).1, (found.execute tools project env w).2.moveTo loc) :=
    execute_anywhere htools hproject.clean.isAbsolute found env w
  have hfromC : fromC = ((found.execute tools project env w).1,
      (found.execute tools project env w).2.moveTo atC) := by
    rw [← hsame]
    exact execute_anywhere htools hc.clean.isAbsolute found env w atC
  have hfromE : fromE = ((found.execute tools project env w).1,
      (found.execute tools project env w).2.moveTo atE) :=
    (execute_named (w.moveTo atE) (hproject.moveTo atE) hmarkedE e tools r env).trans
      (hanywhere atE)
  have hfromProject : fromProject = ((found.execute tools project env w).1,
      (found.execute tools project env w).2.moveTo atProject) := hanywhere atProject
  rw [hfromC, hfromE, hfromProject]
  exact ⟨rfl, rfl, rfl, rfl, rfl, rfl⟩

/-- A project with a directory for its sources. -/
def sampleDisk : Disk :=
  let described := FileSystem.empty.edit [] (.write "/p/Cargo.toml".toUTF8 ⟨#[]⟩)
  ⟨described.edit [] (.makeDirs "/p/src".toUTF8), []⟩

def sampleRequest : Request :=
  { Request.empty with value := fun s => if s = .artifact then some "a" else none }

/-- A build tool that leaves an artifact in the target directory. -/
def sampleTools : Tools :=
  let artifact := "target/wasm32-unknown-unknown/release/a".toUTF8
  Toolbox.tools ⟨[⟨"cargo", .byName, ⟨[], [.edit (.write artifact ⟨#[1]⟩)], .exited 0⟩⟩]⟩
    (.ofBindings [])

theorem execute_from_anywhere_sample :
    let sources := Location.ofPath ⟨"/p/src"⟩
    let w : World := ⟨sampleDisk, []⟩
    let found := (sampleRequest.inProject none).execute sampleTools ⟨"/p/src"⟩ ⟨[]⟩
      (w.moveTo sources)
    let named := (sampleRequest.inProject (some ⟨"/p"⟩)).execute sampleTools ⟨"/"⟩ ⟨[]⟩
      (w.moveTo [])
    named.1.toOption = some () ∧ found.1 = named.1 ∧ found.2.disk.tree = named.2.disk.tree ∧
      found.2.trace = named.2.trace := by
  have hproject : sampleDisk.IsCanonicalDir ⟨"/p"⟩ :=
    ⟨Location.ofPath ⟨"/p"⟩, by decide +kernel, by decide +kernel⟩
  have hc : sampleDisk.IsCanonicalDir ⟨"/p/src"⟩ :=
    ⟨Location.ofPath ⟨"/p/src"⟩, by decide +kernel, by decide +kernel⟩
  have hbetween : ∀ q, sampleDisk.IsCanonicalDir q → (⟨"/p/src"⟩ : Path).Within q →
      q.Within ⟨"/p"⟩ → Project.isMarked sampleDisk q = false := by
    rintro q - ⟨-, hbelow, hbelowne⟩ ⟨-, habove, habovene⟩
    have hsize : (⟨"/p/src"⟩ : Path).normalize.names.length = 2 := by decide +kernel
    have hsize' : (⟨"/p"⟩ : Path).normalize.names.length = 1 := by decide +kernel
    have hlt : q.normalize.names.length < 2 := hsize ▸
      Nat.lt_of_le_of_ne hbelow.length_le fun h => hbelowne (hbelow.eq_of_length h)
    have hgt : 1 < q.normalize.names.length := hsize' ▸
      Nat.lt_of_le_of_ne habove.length_le fun h => habovene (habove.eq_of_length h)
    omega
  obtain ⟨-, hanywhere⟩ := execute_from_anywhere hproject (by decide +kernel) hc
    (by decide +kernel) (by decide +kernel) hbetween ⟨"/"⟩ sampleRequest ⟨[]⟩ []
  obtain ⟨hresult, htree, htrace, hresult', htree', htrace'⟩ :=
    hanywhere sampleTools (Toolbox.tools_ignoreCaller _ _) (Location.ofPath ⟨"/p/src"⟩) [] []
  exact ⟨by decide +kernel, hresult.trans hresult'.symm, htree.trans htree'.symm,
    htrace.trans htrace'.symm⟩

end Request

end WasmBuild
