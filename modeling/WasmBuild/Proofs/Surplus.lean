import WasmBuild.Proofs.Arguments
import WasmBuild.Proofs.Executions

/-! Tokens after the one that may ask for coverage. They are kept and told, and nothing else comes
of them: not for the reading of the options around them, and not for the execution. -/

namespace WasmBuild

namespace CommandLine

namespace Token

/-- The text begins with no hyphen, or it is a negative integer. -/
def IsSurplus (s : String) : Prop :=
  s.toList.head? ≠ some '-' ∨
    ∃ digits, digits ≠ [] ∧ (∀ c ∈ digits, c.isDigit = true) ∧ s.toList = '-' :: digits

theorem form_of_head {t : Token} (h : t.head? ≠ some (.char '-')) : t.form = .word := by
  unfold form
  split
  · exact absurd rfl h
  · exact absurd rfl h
  · rfl
  · exact absurd rfl h
  · rfl

theorem isNumberFrom_digits {digits : List Char} (h : ∀ c ∈ digits, c.isDigit = true)
    (first dotted marked : Bool) :
    isNumberFrom first dotted marked (digits.map .char) = true := by
  induction digits generalizing first with
  | nil => rfl
  | cons c digits ih =>
    have hc : c.isDigit = true := h c (by simp)
    rw [List.map_cons, isNumberFrom, if_pos hc]
    exact ih (fun c hc => h c (by simp [hc])) false

theorem isPlain_of_surplus {s : String} (h : IsSurplus s) : (ofString s).isPlain = true := by
  rcases h with h | ⟨digits, hne, hdigits, hs⟩
  · have hhead : (ofString s).head? ≠ some (.char '-') := by
      rw [ofString, List.head?_map]
      cases hs : s.toList.head? with
      | none => simp
      | some c =>
        intro hc
        cases hc
        exact h hs
    rw [isPlain, form_of_head hhead]
  · obtain ⟨c, digits, rfl⟩ := List.exists_cons_of_ne_nil hne
    have hc : c ≠ '-' := by
      rintro rfl
      exact absurd (hdigits '-' (by simp)) (by decide)
    have hform : (ofString s).form = .cluster ((c :: digits).map .char) := by
      rw [ofString, hs]
      simp [form, hc]
    rw [isPlain, hform]
    exact isNumberFrom_digits hdigits true false false

end Token

/-- The tokens that belong to no option, in order. -/
def positionalsFrom : (awaited : Bool) → List Token → List Token
  | _, [] => []
  | awaited, t :: rest =>
    if t = .ofString "--" then rest
    else if t.isPlain then
      if awaited then positionalsFrom false rest else t :: positionalsFrom false rest
    else positionalsFrom t.awaitsValue rest

def positionals (tokens : List Token) : List Token := positionalsFrom false tokens

section Positionals

variable {options awaited : Bool} {r r' last : Request} {t : Token} {ts tokens rest : List Token}

theorem positionalsFrom_option (hplain : t.isPlain = false) (hne : t ≠ .ofString "--") :
    positionalsFrom awaited (t :: rest) = positionalsFrom t.awaitsValue rest := by
  rw [positionalsFrom, if_neg hne, hplain, if_neg Bool.false_ne_true]

theorem positionalsFrom_plain (hplain : t.isPlain = true) :
    positionalsFrom awaited (t :: rest) =
      if awaited then positionals rest else t :: positionals rest := by
  rw [positionalsFrom, if_neg (Token.ne_separator hplain), hplain, if_pos rfl]
  rfl

theorem positionals_of_sets (h : Sets r ts r') : positionals (ts ++ rest) = positionals rest := by
  obtain ⟨t, hplain, hne, ⟨rfl, hawaits⟩ | ⟨value, rfl, hawaits, hvalue⟩⟩ := h.tokens_cases
  · rw [List.singleton_append, positionals, positionalsFrom_option hplain hne, hawaits]
    rfl
  · rw [List.cons_append, List.singleton_append, positionals, positionalsFrom_option hplain hne,
      hawaits, positionalsFrom_plain hvalue, if_pos rfl]

end Positionals

end CommandLine

namespace Request

variable {r : Request}

/-- The texts of a request that belong to no option. -/
def words (r : Request) : List String := r.coverage.toList ++ r.ignored

theorem ignored_receive (r : Request) (text : String) :
    (r.receive text).coverage = none → (r.receive text).ignored = [] := by
  rw [receive]
  split
  · intro h
    cases h
  · next hr => exact fun h => absurd h hr

theorem words_receive {text : String} (hr : r.coverage = none → r.ignored = []) :
    (r.receive text).words = r.words ++ [text] := by
  rw [receive]
  split
  · next hnone => simp [words, hnone, hr hnone]
  · simp [words]

end Request

namespace CommandLine

section Reads

variable {options : Bool} {r r' last : Request} {ts tokens : List Token}

theorem Sets.keeps (h : Sets r ts r') : r'.coverage = r.coverage ∧ r'.ignored = r.ignored := by
  refine h.preserves (P := fun r' => r'.coverage = r.coverage ∧ r'.ignored = r.ignored)
    (fun hr h => ?_) (fun hr h => ?_) ⟨rfl, rfl⟩
  · rwa [(Reading.keeps_of_assign h).1, (Reading.keeps_of_assign h).2]
  · rwa [(Reading.keeps_of_turnOn h).1, (Reading.keeps_of_turnOn h).2]

/-- Apart from its options, a command line comes to its tokens that belong to none. -/
theorem words_of_reads (h : Reads options r tokens last) (hr : r.coverage = none → r.ignored = []) :
    last.words.map Token.ofString =
      r.words.map .ofString ++ if options then positionals tokens else tokens := by
  induction h with
  | @done options r => cases options <;> simp [positionals, positionalsFrom]
  | option h _ ih =>
    obtain ⟨hcoverage, hignored⟩ := h.keeps
    have hwords := ih (by rwa [hcoverage, hignored])
    simpa [positionals_of_sets h, Request.words, hcoverage, hignored] using hwords
  | @separator r last t rest ht _ ih =>
    simpa [positionals, positionalsFrom, Token.form_separator_iff.mp ht] using ih hr
  | @word options r last t text rest ht htext _ ih =>
    have hwords := ih (Request.ignored_receive r text)
    rw [Request.words_receive hr, List.map_append] at hwords
    rw [Token.text?_eq_some_iff.mp htext] at ht ⊢
    cases options with
    | true => simpa [positionals, positionalsFrom_plain (ht rfl)] using hwords
    | false => simpa using hwords

theorem Reads.extend {extra : List String} (h : Reads options r tokens last)
    (hlast : last.coverage ≠ none)
    (hextra : options = true → .ofString "--" ∈ tokens ∨ ∀ s ∈ extra, Token.IsSurplus s) :
    Reads options r (tokens ++ extra.map .ofString)
      { last with ignored := last.ignored ++ extra } := by
  induction h with
  | done =>
    rw [List.nil_append]
    refine reads_ignored hlast fun ho s hs => ?_
    exact Token.isPlain_of_surplus ((hextra ho).resolve_left List.not_mem_nil s hs)
  | option h _ ih =>
    rw [List.append_assoc]
    refine .option h (ih hlast fun ho => (hextra ho).imp_left fun hmem => ?_)
    refine (List.mem_append.mp hmem).resolve_left fun hts => ?_
    exact h.not_separator _ hts rfl
  | separator ht _ ih => exact .separator ht (ih hlast nofun)
  | word ht htext _ ih =>
    refine .word ht htext (ih hlast fun ho => (hextra ho).imp_left fun hmem => ?_)
    refine (List.mem_cons.mp hmem).resolve_left ?_
    rintro rfl
    exact Token.ne_separator (ht ho) rfl

end Reads

/-- The tokens of a command line that belong to no option are the one that may ask for coverage
and those that are ignored. -/
theorem positionals_of_parse {tokens : List Token} {r : Request} (h : parse tokens = .ok r) :
    positionals tokens = (r.coverage.toList ++ r.ignored).map .ofString :=
  (words_of_reads (parse_eq_ok_iff.mp h) fun _ => rfl).symm

theorem mode_of_parse {tokens : List Token} {r : Request} (h : parse tokens = .ok r)
    (hcoverage : r.coverage ≠ none) :
    r.mode = .coverage ↔ (positionals tokens).head? = some (.ofString "true") := by
  obtain ⟨text, htext⟩ := Option.ne_none_iff_exists'.mp hcoverage
  have hmode : r.mode = .coverage ↔ text = "true" := by
    simp [Request.mode, Mode.ofToken, htext]
  rw [positionals_of_parse h, htext, hmode]
  simp [Token.ofString_injective.eq_iff]

end CommandLine

/-- The same has happened in two worlds, after what was told in each of them first. -/
structure World.Beside (first first' : List Event) (w w' : World) : Prop where
  site : w'.site = w.site
  told : ∃ events, w.trace = first ++ events ∧ w'.trace = first' ++ events

namespace World.Beside

variable {first first' : List Event} {w w' : World}

theorem disk (h : Beside first first' w w') : w'.disk = w.disk := congrArg Site.disk h.site

theorem launches (h : Beside first first' w w') : w'.launches = w.launches :=
  congrArg Site.tried h.site

theorem tell (h : Beside first first' w w') (events : List Event) :
    Beside first first' (w.tell events) (w'.tell events) := by
  obtain ⟨before, hw, hw'⟩ := h.told
  refine ⟨?_, before ++ events, ?_, ?_⟩
  · rw [World.site, World.site, launches_tell, launches_tell, tell_disk, tell_disk, h.launches,
      h.disk]
  · rw [World.tell, hw, List.append_assoc]
  · rw [World.tell, hw', List.append_assoc]

theorem act (h : Beside first first' w w') (disk : Disk) :
    Beside first first' { w with disk } { w' with disk } :=
  ⟨congrArg (Site.mk disk) h.launches, h.told⟩

theorem emit {ε : Type} (events : List Event) :
    Run.Keeps (Beside first first') (Run.emit events : Run ε Unit) (Run.emit events) :=
  fun _ _ h => ⟨rfl, h.tell events⟩

theorem ask {ε α : Type} (question : Disk → Except ε α) :
    Run.Keeps (Beside first first') (Run.ask question) (Run.ask question) :=
  .ask (fun _ _ h => h.disk) question

theorem command (tools : Tools) (c : Command) :
    Run.Keeps (Beside first first') (c.run tools) (c.run tools) := by
  intro w w' h
  rw [Command.run_apply, Command.run_apply, h.disk, h.launches, List.append_assoc,
    List.append_assoc]
  exact ⟨rfl, (h.act _).tell _⟩

end World.Beside

theorem Build.run_beside (first first' : List Event) (tools : Tools) (backend : Backend)
    (cfg : Config) :
    Run.Keeps (World.Beside first first') (run tools backend cfg) (run tools backend cfg) :=
  @run_related tools backend cfg tools (fun x x' => Run.Keeps (World.Beside first first') x x')
    Run.Keeps.pure Run.Keeps.bind (fun _ _ _ _ => World.Beside.emit _)
    (World.Beside.command tools _) (World.Beside.ask _)
    (Run.Keeps.act (fun _ _ h => h.disk) (fun _ _ disk h => h.act disk) _)
    (World.Beside.command tools _) (World.Beside.ask _)

namespace Request

theorem conclude_beside (first first' : List Event) (tools : Tools) (r : Request) (cfg : Config) :
    Run.Keeps (World.Beside first first') (r.conclude tools cfg) (r.conclude tools cfg) := by
  rw [conclude]
  cases r.dryRun with
  | true => exact World.Beside.emit _
  | false =>
    have hrun := Build.run_beside first first' tools (Backend.ofMode cfg.mode) cfg
    exact .bind (.within _ hrun) fun _ _ _ _ => World.Beside.emit _

theorem beside_notes [Toml.Dialect] {r r' : Request} {cwd : Path} {env : Environment} {w : World}
    (h : r'.projectNotes cwd env w.disk = r.projectNotes cwd env w.disk) :
    World.Beside (w.trace ++ r.ignoredNotes) (w.trace ++ r'.ignoredNotes)
      (w.tell (r.notes cwd env w.disk)) (w.tell (r'.notes cwd env w.disk)) := by
  refine ⟨?_, r.projectNotes cwd env w.disk, ?_, ?_⟩
  · rw [World.site_tell_logs (isLog_notes r' cwd env w.disk),
      World.site_tell_logs (isLog_notes r cwd env w.disk)]
  · rw [World.tell, notes, List.append_assoc]
  · rw [World.tell, notes, h, List.append_assoc]

/-- Apart from the line about them, ignored tokens leave no mark on an execution. -/
theorem execute_ignored [Toml.Dialect] (tools : Tools) (r : Request) (texts : List String)
    (cwd : Path) (env : Environment) (w : World) :
    ∃ result disk events,
      r.execute tools cwd env w = (result, ⟨disk, w.trace ++ r.ignoredNotes ++ events⟩) ∧
      { r with ignored := texts }.execute tools cwd env w =
        (result, ⟨disk, w.trace ++ { r with ignored := texts }.ignoredNotes ++ events⟩) := by
  let r' : Request := { r with ignored := texts }
  have hnotes : World.Beside (w.trace ++ r.ignoredNotes) (w.trace ++ r'.ignoredNotes)
      (w.tell (r.notes cwd env w.disk)) (w.tell (r'.notes cwd env w.disk)) := beside_notes rfl
  have hexecute : (r'.execute tools cwd env w).1 = (r.execute tools cwd env w).1 ∧
      World.Beside (w.trace ++ r.ignoredNotes) (w.trace ++ r'.ignoredNotes)
        (r.execute tools cwd env w).2 (r'.execute tools cwd env w).2 := by
    have hconfiguration : r'.configuration cwd env w.disk = r.configuration cwd env w.disk := rfl
    rw [execute_apply, execute_apply, hconfiguration]
    cases r.configuration cwd env w.disk with
    | error f => exact ⟨rfl, hnotes⟩
    | ok cfg => exact conclude_beside _ _ tools r cfg _ _ hnotes
  obtain ⟨hresult, hleft⟩ := hexecute
  obtain ⟨events, htrace, htrace'⟩ := hleft.told
  have hdisk := hleft.disk
  refine ⟨(r.execute tools cwd env w).1, (r.execute tools cwd env w).2.disk, events, ?_, ?_⟩
  · rw [← htrace]
    rfl
  · change r'.execute tools cwd env w = _
    rw [← hresult, ← hdisk, ← htrace']
    rfl

end Request

namespace CommandLine

/-- Tokens that are appended to a command line with one for coverage are ignored. Only the first one
decides on the mode. An execution does the same and tells the same with the others as without them,
apart from the line that names those that are ignored. -/
theorem parse_surplus [Toml.Dialect] {tokens : List Token} {r : Request} {extra : List String}
    (h : parse tokens = .ok r) (hcoverage : r.coverage ≠ none)
    (hextra : .ofString "--" ∈ tokens ∨ ∀ s ∈ extra, Token.IsSurplus s) :
    let r' : Request := { r with ignored := r.ignored ++ extra }
    parse (tokens ++ extra.map .ofString) = .ok r' ∧
      (r.mode = .coverage ↔ (positionals tokens).head? = some (.ofString "true")) ∧
      r'.mode = r.mode ∧
      ∀ (tools : Tools) (cwd : Path) (env : Environment) (w : World), ∃ result disk events,
        r.execute tools cwd env w = (result, ⟨disk, w.trace ++ r.ignoredNotes ++ events⟩) ∧
        r'.execute tools cwd env w = (result, ⟨disk, w.trace ++ r'.ignoredNotes ++ events⟩) := by
  intro r'
  have hreads : Reads true .empty tokens r := parse_eq_ok_iff.mp h
  exact ⟨parse_eq_ok_iff.mpr (hreads.extend hcoverage fun _ => hextra), mode_of_parse h hcoverage,
    rfl, fun tools cwd env w => r.execute_ignored tools _ cwd env w⟩

/-- A word and a negative number after the token that asks for coverage. -/
theorem parse_surplus_sample :
    let tokens := ["-v", "true", "--dry-run"].map Token.ofString
    let r : Request := ⟨some "true", [], fun _ => none, false, false, true, 1⟩
    parse tokens = .ok r ∧ r.coverage ≠ none ∧ (∀ s ∈ ["extra", "-12"], Token.IsSurplus s) ∧
      parse (tokens ++ ["extra", "-12"].map .ofString) =
        .ok { r with ignored := ["extra", "-12"] } ∧ r.mode = .coverage := by
  intro tokens r
  have h : parse tokens = .ok r := rfl
  have hcoverage : r.coverage ≠ none := nofun
  have hextra : ∀ s ∈ ["extra", "-12"], Token.IsSurplus s := by
    rintro s (_ | ⟨_, _ | ⟨_, ⟨⟩⟩⟩)
    · exact .inl (by decide)
    · have hdigits : ∀ c ∈ ['1', '2'], c.isDigit = true := by
        rintro c (_ | ⟨_, _ | ⟨_, ⟨⟩⟩⟩)
        · rfl
        · rfl
      exact .inr ⟨['1', '2'], nofun, hdigits, by decide⟩
  obtain ⟨hparse, hmode, -⟩ := parse_surplus h hcoverage (.inr hextra)
  exact ⟨h, hcoverage, hextra, hparse, hmode.mpr (by decide)⟩

end CommandLine

end WasmBuild
