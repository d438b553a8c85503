import WasmBuild.Proofs.Executions

/-! Which errors are the failure of a tool. Only a tool that was started and has ended badly
gives such an error; reading, configuring, checking and copying never do. -/

namespace WasmBuild

namespace BuildError

theorem exitCode_of_not_commandFailure {e : BuildError} (h : e.isCommandFailure = false) :
    e.exitCode = 1 := by
  cases e with
  | commandFailed command code => cases h
  | _ => rfl

theorem exitCode_bounds (e : BuildError) : 1 ≤ e.exitCode ∧ e.exitCode ≤ 255 := by
  fun_cases exitCode e
  all_goals omega

end BuildError

namespace Failure

theorem toolError?_ofError_eq_some {e e' : BuildError} :
    (ofError e).toolError? = some e' ↔ e = e' ∧ e.isCommandFailure = true := by
  simp only [toolError?, ofError]
  split
  · next h => simp [h]
  · next h => simp [h]

end Failure

namespace Ending

variable {ending : Ending} {c : Command} {status : UInt8}

theorem isCommandFailure_of_check {e : BuildError} (h : ending.check c = .error e) :
    e.isCommandFailure = true := by
  cases ending with
  | killed =>
    cases h
    rfl
  | exited status =>
    rw [check] at h
    split at h
    · cases h
    · cases h
      rfl

theorem exitCode_commandFailed (text : String) (h : status ≠ 0) :
    (BuildError.commandFailed text (some status.toNat)).exitCode = status.toNat := by
  have hpos : 0 < status.toNat := Nat.pos_of_ne_zero fun hz => h (UInt8.toNat_inj.mp hz)
  have hlt : status.toNat < 256 := status.toNat_lt
  exact if_pos ⟨by omega, by omega⟩

end Ending

/-- A result that is not the failure of a tool. -/
def Toolless {α : Type} (x : Except BuildError α) : Prop :=
  ∀ e, x = .error e → e.isCommandFailure = false

namespace Toolless

variable {α β : Type}

theorem ok (a : α) : Toolless (.ok a : Except BuildError α) := fun _ h => nomatch h

theorem error {e : BuildError} (h : e.isCommandFailure = false) :
    Toolless (.error e : Except BuildError α) := fun _ he => Except.error.inj he ▸ h

theorem bind {x : Except BuildError α} {f : α → Except BuildError β} (hx : Toolless x)
    (hf : ∀ a, Toolless (f a)) : Toolless (x >>= f) := by
  cases x with
  | error e => exact .error (hx e rfl)
  | ok a => exact hf a

theorem map {x : Except BuildError α} (f : α → β) (hx : Toolless x) : Toolless (x.map f) := by
  cases x with
  | error e => exact .error (hx e rfl)
  | ok a => exact .ok (f a)

end Toolless

theorem Flags.toolless_load (d : Disk) (p : Path) : Toolless (load d p) := by
  rw [load]
  split
  · exact .error rfl
  · split
    · exact .ok _
    · exact .error rfl

section Reading

variable [Toml.Dialect]

theorem Manifest.toolless_parse (p : Path) (text : String) : Toolless (parse p text) := by
  rw [parse]
  split
  · exact .ok _
  · exact .error rfl

theorem Manifest.toolless_load (d : Disk) (p : Path) : Toolless (load d p) := by
  rw [load]
  split
  · exact toolless_parse p _
  · exact .error rfl

theorem Manifest.toolless_loadOrEmpty (d : Disk) (p : Path) : Toolless (loadOrEmpty d p) := by
  rw [loadOrEmpty]
  split
  · exact toolless_parse p _
  · split
    · exact .ok _
    · exact .error rfl

theorem Package.toolless_loadArtifact (d : Disk) (p : Path) : Toolless (loadArtifact d p) := by
  rw [loadArtifact]
  split
  · rw [artifactOf]
    split
    · exact .error rfl
    · split
      · exact .ok _
      · exact .error rfl
  · exact .error rfl

theorem Config.toolless_resolve (d : Disk) (project : Path) (o : Overrides) (env : Environment) :
    Toolless (resolve d project o env) := by
  refine .bind ?_ fun m => ?_
  · rw [manifestFor]
    split
    · exact Manifest.toolless_load d _
    · exact Manifest.toolless_loadOrEmpty d _
  · refine .bind ?_ fun flags => .bind ?_ fun artifact => .ok _
    · cases flagsPath? project o env m with
      | some p => exact Flags.toolless_load d p
      | none => exact .ok []
    · rw [artifactFor]
      split
      · exact .ok _
      · exact Package.toolless_loadArtifact d _

end Reading

theorem Project.toolless_choose (d : Disk) (explicit : Option Path) (cwd : Path) :
    Toolless (choose d explicit cwd) := by
  cases explicit with
  | some p => exact .ok _
  | none =>
    rw [choose_none]
    cases cwd.ancestors.find? (isMarked d) with
    | some dir => exact .ok _
    | none => exact .error rfl

theorem Project.toolless_canonical (d : Disk) (p : Path) : Toolless (canonical d p) := by
  rw [canonical]
  split
  · exact .error rfl
  · split
    · exact .ok _
    · exact .error rfl

theorem Project.toolless_find (d : Disk) (explicit : Option Path) (cwd : Path) :
    Toolless (find d explicit cwd) := by
  rw [find]
  exact .bind (toolless_choose d explicit cwd) (toolless_canonical d)

theorem Disk.toolless_makeParent (d : Disk) (p : Path) : Toolless (d.makeParent p).1 := by
  rw [makeParent]
  cases p.parent? with
  | none => exact .ok ()
  | some dir =>
    dsimp only
    rcases d.makeDirs dir with ⟨e | ⟨⟩, left⟩
    · exact .error rfl
    · exact .ok ()

theorem Disk.toolless_place (d : Disk) (src dst : Path) (size : Nat) :
    Toolless (d.place src dst size).1 := by
  rw [place]
  split
  · exact .ok _
  · rcases d.copy src dst with ⟨e | bytes, left⟩
    · exact .error rfl
    · exact .ok _

theorem Disk.toolless_deliver (d : Disk) (src dst : Path) : Toolless (d.deliver src dst).1 := by
  have hmake := d.toolless_makeParent dst
  rw [deliver]
  cases d.size src with
  | error e => exact .error rfl
  | ok size =>
    rcases hm : d.makeParent dst with ⟨e | ⟨⟩, left⟩
    · rw [hm] at hmake
      exact .error (hmake e rfl)
    · exact left.toolless_place src dst size

end WasmBuild
