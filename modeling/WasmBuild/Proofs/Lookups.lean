import WasmBuild.Proofs.Assignments
import WasmBuild.Proofs.Executions

/-! What a configuration takes from an environment. Only values that are not empty are looked up,
so environments that agree in these cannot be told apart. -/

namespace WasmBuild

namespace Environment

variable {env other : Environment} {pairs pairs' : List (String × String)} {key : String}

theorem get?_cons_of_ne {name : String} (h : key ≠ name) (value : String)
    (vars : List (String × String)) :
    (Environment.mk ((name, value) :: vars)).get? key = (Environment.mk vars).get? key := by
  have hne : (key == name) = false := by simpa using h
  rw [get?, get?, last?, last?, List.reverse_cons, List.lookup_append, List.lookup_cons, hne,
    List.lookup_nil, Option.or_none]

theorem last?_overlay (env : Environment) (pairs : List (String × String)) (key : String) :
    (env.overlay pairs).last? key = ((Environment.mk pairs).last? key).or (env.last? key) := by
  rw [overlay, last?, last?, last?, List.reverse_append, List.lookup_append]

theorem get?_overlay_congr (h : other.get? key = env.get? key)
    (hpairs : (Environment.mk pairs').last? key = (Environment.mk pairs).last? key) :
    (other.overlay pairs').get? key = (env.overlay pairs).get? key := by
  rw [get?, get?, last?_overlay, last?_overlay, hpairs]
  cases (Environment.mk pairs).last? key with
  | none => exact h
  | some value => rfl

end Environment

namespace Config

variable {env other : Environment}

theorem flagsPath?_congr (h : other.get? flagsFileKey = env.get? flagsFileKey)
    (project : Path) (o : Overrides) (m : Manifest) :
    flagsPath? project o other m = flagsPath? project o env m := by
  rw [flagsPath?, flagsPath?, h]

theorem settle_congr [Toml.Dialect] (h : ∀ key, other.get? key = env.get? key) (d : Disk)
    (project : Path) (o : Overrides) (m : Manifest) :
    settle d project o other m = settle d project o env m := by
  have hover (flags : List Binding) (key : String) :
      (other.overlay flags).get? key = (env.overlay flags).get? key :=
    Environment.get?_overlay_congr (h key) rfl
  have hpath := flagsPath?_congr (h flagsFileKey) project o m
  simp only [settle, hpath, targetDirFor, coverageDirFor, hover]

theorem resolve_congr [Toml.Dialect] (h : ∀ key, other.get? key = env.get? key) (d : Disk)
    (project : Path) (o : Overrides) : resolve d project o other = resolve d project o env := by
  simp only [resolve, settle_congr h]

theorem notes_congr [Toml.Dialect] (h : ∀ key, other.get? key = env.get? key) (d : Disk)
    (project : Path) (o : Overrides) : notes d project o other = notes d project o env := by
  simp only [notes, flagsPath?_congr (h flagsFileKey)]

end Config

end WasmBuild
