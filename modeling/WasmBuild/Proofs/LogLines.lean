import WasmBuild.Proofs.Statuses

/-! The log lines of an invocation. The program only logs at the levels `info` and `debug`, so a
filter that shows less shows nothing, and what is then seen is what the tools print and what the
program says. -/

namespace WasmBuild

namespace World

/-- A world in whose log there is nothing graver than information. -/
def Mild (w : World) : Prop :=
  ∀ record, .log record ∈ w.trace → record.level = .info ∨ record.level = .debug

variable {w : World} {events : List Event}

theorem Mild.tell (h : w.Mild)
    (hevents : ∀ record, .log record ∈ events → record.level = .info ∨ record.level = .debug) :
    (w.tell events).Mild := by
  intro record hm
  rcases List.mem_append.mp hm with hm | hm
  · exact h record hm
  · exact hevents record hm

end World

/-- A part of a run that logs nothing graver than information. -/
def Run.Mild {ε α : Type} (x : Run ε α) : Prop := ∀ w, w.Mild → (x w).2.Mild

namespace Run.Mild

variable {ε δ α β : Type}

theorem pure (a : α) : Mild (Pure.pure a : Run ε α) := fun _ h => h

theorem bind {x : Run ε α} {f : α → Run ε β} (hx : Mild x)
    (hf : ∀ w a left, x w = (.ok a, left) → Mild (f a)) : Mild (x >>= f) := by
  intro w hw
  have hleft := hx w hw
  rw [Run.bind_apply]
  rcases h : x w with ⟨e | a, left⟩
  · rw [h] at hleft
    exact hleft
  · rw [h] at hleft
    exact hf w a left h left hleft

theorem log {level : Log.Level} (h : level = .info ∨ level = .debug) (target message : String) :
    Mild (Run.log level target message : Run ε Unit) := by
  intro w hw
  refine World.Mild.tell hw fun record hm => ?_
  obtain rfl := Event.log.inj (List.mem_singleton.mp hm)
  exact h

theorem print (channel : Channel) (text : String) :
    Mild (Run.print channel text : Run ε Unit) := by
  intro w hw
  exact World.Mild.tell hw fun record hm => nomatch List.mem_singleton.mp hm

theorem ask (question : Disk → Except ε α) : Mild (Run.ask question) := by
  intro w hw
  rw [Run.ask_apply]
  exact hw

theorem act (change : Disk → Except ε α × Disk) : Mild (Run.act change) := by
  intro w hw
  rw [Run.act_apply]
  exact hw

theorem within (around : ε → δ) {x : Run ε α} (hx : Mild x) : Mild (Run.within around x) := hx

theorem command (tools : Tools) (c : Command) : Mild (c.run tools) := by
  intro w hw record hm
  rw [Command.run_apply, Command.seen] at hm
  cases hrun : tools w.launches w.disk c with
  | error e =>
    simp only [hrun, List.append_nil, List.mem_append, List.mem_cons, List.not_mem_nil, or_false,
      reduceCtorEq, Event.log.injEq] at hm
    rcases hm with hm | rfl
    · exact hw record hm
    · exact .inr rfl
  | ok outcome =>
    simp only [hrun, List.mem_append, List.mem_cons, List.not_mem_nil, or_false,
      reduceCtorEq, Event.log.injEq] at hm
    rcases hm with hm | rfl
    · exact hw record hm
    · exact .inr rfl

end Run.Mild

theorem Build.run_mild (tools : Tools) (backend : Backend) (cfg : Config) :
    Run.Mild (run tools backend cfg) :=
  run_closed .pure .bind (fun _ _ _ h => .log h _ _) (.command tools _) (.ask _) (.act _)
    (.command tools _) (.ask _)

namespace Request

theorem mild_notes [Toml.Dialect] {r : Request} {cwd : Path} {env : Environment} {d : Disk}
    {record : Log.Record} (h : .log record ∈ r.notes cwd env d) : record.level = .debug := by
  rcases List.mem_append.mp h with h | h
  · rw [ignoredNotes] at h
    split at h
    · cases h
    · rw [Event.log.inj (List.mem_singleton.mp h)]
  · rw [projectNotes] at h
    split at h
    · rw [Config.notes] at h
      split at h
      · obtain ⟨p, -, heq⟩ := List.mem_map.mp h
        rw [← Event.log.inj heq]
      · cases h
    · cases h

theorem conclude_mild (tools : Tools) (r : Request) (cfg : Config) :
    Run.Mild (r.conclude tools cfg) := by
  rw [conclude]
  cases r.dryRun with
  | true => exact .print _ _
  | false => exact .bind (.within _ (Build.run_mild tools _ cfg)) fun _ _ _ _ => .print _ _

theorem execute_mild [Toml.Dialect] (tools : Tools) (r : Request) (cwd : Path) (env : Environment) :
    Run.Mild (r.execute tools cwd env) := by
  intro w hw
  have htold : (w.tell (r.notes cwd env w.disk)).Mild :=
    hw.tell fun _ hm => .inr (mild_notes hm)
  rw [execute_apply]
  cases r.configuration cwd env w.disk with
  | error f => exact htold
  | ok cfg => exact conclude_mild tools r cfg _ htold

end Request

theorem Failure.mild_events {f : Failure} {record : Log.Record} (h : .log record ∈ f.events) :
    record.level = .debug := by
  rw [events] at h
  split at h
  · rw [Event.log.inj (List.mem_singleton.mp h)]
  · cases List.mem_singleton.mp h

theorem Invocation.carryOut_mild [Toml.Dialect] (tools : Tools) (r : Request) (env : Environment)
    {w : World} (hw : w.Mild) : (carryOut tools r env w).2.Mild := by
  rw [carryOut]
  cases workingDir w.disk with
  | error f => exact hw.tell fun _ hm => .inr (Failure.mild_events hm)
  | ok cwd =>
    have hexecute := Request.execute_mild tools r cwd env w hw
    cases hx : (r.execute tools cwd env w).1 with
    | ok =>
      dsimp only
      rw [Request.carryOut_of_ok hx]
      exact hexecute
    | error f =>
      dsimp only
      rw [Request.carryOut_of_error hx]
      exact hexecute.tell fun _ hm => .inr (Failure.mild_events hm)

namespace Log.Filter

/-- The filter that shows all targets up to a rank. -/
def upTo (rank : Nat) : Filter := ⟨[⟨none, rank⟩], none⟩

theorem allows_upTo (rank : Nat) (r : Record) :
    (upTo rank).allows r = decide (r.level.rank ≤ rank) := by
  simp [upTo, allows, rankFor]

/-- A filter that shows less than information shows nothing of what the program logs. -/
theorem allows_upTo_of_mild {rank : Nat} (hrank : rank < 3) {r : Record}
    (h : r.level = .info ∨ r.level = .debug) : (upTo rank).allows r = false := by
  have hlevel : 3 ≤ r.level.rank := by
    rcases h with h | h
    · rw [h]
      decide
    · rw [h]
      decide
  rw [allows_upTo, decide_eq_false_iff_not]
  omega

theorem parse_empty : parse "" = (upTo 1, []) := by decide +kernel

end Log.Filter

namespace Invocation

/-- How much is shown where no filter is given. -/
def defaultRank (verbose : Nat) : Nat :=
  match verbose with
  | 0 => 2
  | 1 => 3
  | _ => 4

theorem parse_defaultFilter (verbose : Nat) :
    Log.Filter.parse (defaultFilter verbose) = (.upTo (defaultRank verbose), []) := by
  match verbose with
  | 0 => decide +kernel
  | 1 => decide +kernel
  | _ + 2 =>
    have hdebug : Log.Filter.parse "debug" = (.upTo 4, []) := by decide +kernel
    exact hdebug

end Invocation

namespace Bytes

theorem size_foldl (start : ByteArray) (texts : List ByteArray) :
    (texts.foldl (· ++ ·) start).size = start.size + (concat texts).size := by
  induction texts generalizing start with
  | nil => rfl
  | cons text rest ih =>
    have hempty : (⟨#[]⟩ : ByteArray).size = 0 := rfl
    rw [concat, List.foldl_cons, List.foldl_cons, ih, ih, ByteArray.size_append,
      ByteArray.size_append]
    omega

theorem size_concat_cons (text : ByteArray) (rest : List ByteArray) :
    (concat (text :: rest)).size = text.size + (concat rest).size := by
  have hempty : (⟨#[]⟩ : ByteArray).size = 0 := rfl
  rw [concat, List.foldl_cons, size_foldl, ByteArray.size_append]
  omega

section Comparing

variable {α : Type} {f g : α → ByteArray} {as : List α}

theorem size_concat_le (h : ∀ a ∈ as, (f a).size ≤ (g a).size) :
    (concat (as.map f)).size ≤ (concat (as.map g)).size := by
  induction as with
  | nil => exact Nat.le_refl _
  | cons a rest ih =>
    have hfirst := h a List.mem_cons_self
    have hrest := ih fun b hb => h b (List.mem_cons_of_mem a hb)
    rw [List.map_cons, List.map_cons, size_concat_cons, size_concat_cons]
    omega

theorem size_concat_lt (h : ∀ a ∈ as, (f a).size ≤ (g a).size) {longer : α}
    (hmem : longer ∈ as) (hlonger : (f longer).size < (g longer).size) :
    (concat (as.map f)).size < (concat (as.map g)).size := by
  induction as with
  | nil => cases hmem
  | cons a rest ih =>
    have hfirst := h a List.mem_cons_self
    have hlater : ∀ b ∈ rest, (f b).size ≤ (g b).size :=
      fun b hb => h b (List.mem_cons_of_mem a hb)
    have hrest := size_concat_le hlater
    rw [List.map_cons, List.map_cons, size_concat_cons, size_concat_cons]
    rcases List.mem_cons.mp hmem with rfl | hmem
    · omega
    · have hless := ih hlater hmem
      omega

end Comparing

end Bytes

namespace Finished

variable {f : Finished}

theorem errorsOf_of_not_allowed {record : Log.Record} (h : f.filter.allows record = false) :
    f.errorsOf (.log record) = ⟨#[]⟩ := by
  rw [errorsOf, h]
  rfl

theorem size_line_pos (record : Log.Record) : 0 < record.line.toUTF8.size := by
  have hfeed : 0 < "\n".utf8ByteSize := by decide
  change 0 < record.line.utf8ByteSize
  rw [Log.Record.line, String.utf8ByteSize_append]
  exact Nat.add_pos_right _ hfeed

theorem size_onChannel_le (e : Event) : (e.onChannel .errors).size ≤ (f.errorsOf e).size := by
  cases e with
  | log record => exact Nat.zero_le _
  | launch | ran | print => exact Nat.le_refl _

/-- What is seen is what the tools print and the program says just when no log line is shown. -/
theorem errors_eq_onChannel_iff (hcomplaints : f.complaints = []) :
    f.errors = f.world.onChannel .errors ↔
      ∀ record, .log record ∈ f.world.trace → f.filter.allows record = false := by
  have herrors : f.errors = Bytes.concat (f.world.trace.map f.errorsOf) := by
    rw [errors, hcomplaints]
    rfl
  rw [herrors, World.onChannel]
  constructor
  · intro heq record hm
    refine Bool.eq_false_iff.mpr fun hshown => ?_
    have hline : f.errorsOf (.log record) = record.line.toUTF8 := by
      rw [errorsOf, if_pos hshown]
    have hlt := Bytes.size_concat_lt (fun e _ => @size_onChannel_le f e) hm
      (hline ▸ size_line_pos record)
    rw [heq] at hlt
    exact Nat.lt_irrefl _ hlt
  · intro hsilent
    refine congrArg Bytes.concat (List.map_congr_left fun e he => ?_)
    cases e with
    | log record => exact errorsOf_of_not_allowed (hsilent record he)
    | launch | ran | print => rfl

end Finished

end WasmBuild
