import WasmBuild.Build

/-! What the parts of a run do to a world. A part that fails ends the run, and what it has
left of the world stays. -/

namespace WasmBuild

namespace Run

variable {ε α β : Type}

theorem bind_apply (x : Run ε α) (f : α → Run ε β) (w : World) :
    (x >>= f) w =
      match x w with
      | (.ok a, left) => f a left
      | (.error e, left) => (.error e, left) := by
  change (match x w with | (r, left) => ExceptT.bindCont f r left) = _
  rcases x w with ⟨e | a, left⟩ <;> rfl

theorem bind_eq_ok {x : Run ε α} {f : α → Run ε β} {w last : World} {b : β}
    (h : (x >>= f) w = (.ok b, last)) :
    ∃ a left, x w = (.ok a, left) ∧ f a left = (.ok b, last) := by
  rw [bind_apply] at h
  rcases hx : x w with ⟨e | a, left⟩
  · rw [hx] at h
    cases congrArg Prod.fst h
  · rw [hx] at h
    exact ⟨a, left, rfl, h⟩

theorem throw_apply (e : ε) (w : World) : (throw e : Run ε α) w = (.error e, w) := rfl

theorem get_apply (w : World) : (get : Run ε World) w = (.ok w, w) := rfl

theorem modify_apply (f : World → World) (w : World) :
    (modify f : Run ε Unit) w = (.ok (), f w) := rfl

theorem lift_apply (result : Except ε α) (w : World) :
    (liftM result : Run ε α) w = (result, w) := by
  cases result <;> rfl

theorem emit_apply (events : List Event) (w : World) :
    (emit events : Run ε Unit) w = (.ok (), { w with trace := w.trace ++ events }) := rfl

theorem log_apply (level : Log.Level) (target message : String) (w : World) :
    (log level target message : Run ε Unit) w =
      (.ok (), { w with trace := w.trace ++ [.log ⟨level, target, message⟩] }) := rfl

theorem ask_apply (question : Disk → Except ε α) (w : World) :
    ask question w = (question w.disk, w) := by
  rw [ask, bind_apply, get_apply]
  dsimp only
  cases question w.disk <;> rfl

theorem act_apply (change : Disk → Except ε α × Disk) (w : World) :
    act change w = ((change w.disk).1, { w with disk := (change w.disk).2 }) := by
  rw [act, bind_apply, get_apply]
  dsimp only
  rw [bind_apply, modify_apply]
  dsimp only
  cases (change w.disk).1 <;> rfl

/-- Parts of runs that end alike in worlds that are related, and leave related worlds. -/
def Keeps (E : World → World → Prop) (x x' : Run ε α) : Prop :=
  ∀ w w', E w w' → (x' w').1 = (x w).1 ∧ E (x w).2 (x' w').2

namespace Keeps

variable {E : World → World → Prop}

theorem pure (a : α) : Keeps E (Pure.pure a : Run ε α) (Pure.pure a) := fun _ _ h => ⟨rfl, h⟩

theorem bind {x x' : Run ε α} {f f' : α → Run ε β} (hx : Keeps E x x')
    (hf : ∀ w a left, x w = (.ok a, left) → Keeps E (f a) (f' a)) :
    Keeps E (x >>= f) (x' >>= f') := by
  intro w w' h
  obtain ⟨hresult, hleft⟩ := hx w w' h
  rw [bind_apply, bind_apply]
  rcases hw : x w with ⟨result, left⟩
  rcases hw' : x' w' with ⟨result', left'⟩
  rw [hw, hw'] at hresult hleft
  obtain rfl : result' = result := hresult
  cases result' with
  | error e => exact ⟨rfl, hleft⟩
  | ok a => exact hf w a left hw left left' hleft

theorem ask (hdisk : ∀ w w', E w w' → w'.disk = w.disk) (question : Disk → Except ε α) :
    Keeps E (Run.ask question) (Run.ask question) := by
  intro w w' h
  rw [ask_apply, ask_apply, hdisk w w' h]
  exact ⟨rfl, h⟩

theorem act (hdisk : ∀ w w', E w w' → w'.disk = w.disk)
    (hE : ∀ w w' disk, E w w' → E { w with disk } { w' with disk })
    (change : Disk → Except ε α × Disk) : Keeps E (Run.act change) (Run.act change) := by
  intro w w' h
  rw [act_apply, act_apply, hdisk w w' h]
  exact ⟨rfl, hE w w' _ h⟩

end Keeps

end Run

namespace World

theorem launches_log (d : Disk) (trace : List Event) (record : Log.Record) :
    (⟨d, trace ++ [.log record]⟩ : World).launches = (⟨d, trace⟩ : World).launches := by
  simp [launches]

end World

namespace Ending

variable {ending : Ending} {c : Command} {status : UInt8}

theorem check_exited (h : status ≠ 0) :
    (exited status).check c = .error (.commandFailed c.text (some status.toNat)) := if_neg h

theorem check_killed : killed.check c = .error (.commandFailed c.text none) := rfl

theorem check_eq_ok_iff : ending.check c = .ok () ↔ ending = .exited 0 := by
  cases ending with
  | killed => simp [check_killed]
  | exited status =>
    by_cases h : status = 0
    · simp [check, h]
    · simp [check_exited h, h]

end Ending

namespace Command

/-- What comes of a command that is tried after others: how it ends, and the disk it
leaves. -/
def attempt (tools : Tools) (earlier : List Command) (d : Disk) (c : Command) :
    Except BuildError Unit × Disk :=
  match tools earlier d c with
  | .error e => (.error (.notStarted c.program e), d)
  | .ok outcome => (outcome.ending.check c, { d with tree := outcome.tree })

def seen (tools : Tools) (earlier : List Command) (d : Disk) (c : Command) : List Event :=
  match tools earlier d c with
  | .error _ => []
  | .ok outcome => [.ran outcome.call outcome.printed]

theorem attempt_eq_ok_iff {tools : Tools} {earlier : List Command} {d left : Disk} {c : Command} :
    c.attempt tools earlier d = (.ok (), left) ↔
      ∃ outcome, tools earlier d c = .ok outcome ∧ outcome.ending = .exited 0 ∧
        left = { d with tree := outcome.tree } := by
  rw [attempt]
  cases tools earlier d c with
  | error e => simp
  | ok outcome =>
    rw [Prod.mk.injEq, Ending.check_eq_ok_iff]
    constructor
    · rintro ⟨hends, rfl⟩
      exact ⟨outcome, rfl, hends, rfl⟩
    · rintro ⟨_, ⟨⟩, hends, rfl⟩
      exact ⟨hends, rfl⟩

variable (tools : Tools) (c : Command) (w : World)

theorem run_apply :
    c.run tools w =
      ((c.attempt tools w.launches w.disk).1,
        ⟨(c.attempt tools w.launches w.disk).2,
          w.trace ++ [.log ⟨.debug, logTarget, "exec: " ++ c.text ++ " (cwd=" ++ c.cwd.text ++ ")"⟩,
            .launch c] ++ c.seen tools w.launches w.disk⟩) := by
  simp only [run, attempt, seen, Run.bind_apply, Run.log_apply, Run.get_apply, Run.emit_apply,
    World.launches_log]
  cases tools w.launches w.disk c with
  | error e => simp [Run.throw_apply]
  | ok outcome => simp [Run.bind_apply, Run.modify_apply, Run.emit_apply, Run.lift_apply]

theorem run_launches : (c.run tools w).2.launches = w.launches ++ [c] := by
  rw [run_apply, seen]
  cases tools w.launches w.disk c <;> simp [World.launches]

end Command

end WasmBuild
