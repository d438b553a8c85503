import Mathlib.Data.List.Induction
import Mathlib.Data.List.Perm.Basic
import WasmBuild.Proofs.Arguments

/-! A request told as a command line. Each argument that a request is made of adds to what is asked
what its removal takes away, so in whatever order they come, the request comes out of them. -/

namespace WasmBuild

open CommandLine

namespace CommandLine

/-- An option, with its value where it takes one. -/
inductive Argument where
  | value (s : Setting) (text : String)
  | switch (s : Switch)
deriving DecidableEq

namespace Argument

/-- An option in one token: a value is tied to its option, and the verbosity has a short name. -/
def token : Argument → Token
  | value s text => .ofString ("--" ++ s.name ++ "=" ++ text)
  | switch .verbose => .ofString "-v"
  | switch s => .ofString ("--" ++ s.name)

/-- What an option adds to a request. -/
def tell (r : Request) : Argument → Except Usage Request
  | value s text => Reading.assign r s (.ofString text)
  | switch s => Reading.turnOn r s

/-- What is left of a request without one of its options. -/
def undo (r : Request) : Argument → Request
  | value s _ => { r with value := fun s' => if s' = s then none else r.value s' }
  | switch .optimize => { r with optimize := false }
  | switch .noOptimize => { r with noOptimize := false }
  | switch .dryRun => { r with dryRun := false }
  | switch .verbose => { r with verbose := r.verbose - 1 }
  | switch .help | switch .version => r

end Argument

end CommandLine

namespace Request

/-- Nothing is ignored where there is no token before it, no two switches contradict each other, and
the verbosity is within its bound. -/
structure WellFormed (r : Request) : Prop where
  ignored : r.coverage = none → r.ignored = []
  switches : ¬(r.optimize = true ∧ r.noOptimize = true)
  verbose : r.verbose ≤ 255

/-- How often a switch is turned on. -/
def times (r : Request) : Switch → Nat
  | .optimize => r.optimize.toNat
  | .noOptimize => r.noOptimize.toNat
  | .dryRun => r.dryRun.toNat
  | .verbose => r.verbose
  | .help | .version => 0

def values (r : Request) (s : Setting) : List Argument := (r.value s).toList.map (.value s)

def switches (r : Request) (s : Switch) : List Argument := List.replicate (r.times s) (.switch s)

/-- The options that make a request, one by one. -/
def arguments (r : Request) : List Argument :=
  Setting.all.flatMap r.values ++ Switch.all.flatMap r.switches

/-- The tokens of a request that belong to no option. -/
def trailing (r : Request) : List Token :=
  match r.coverage with
  | some text => .ofString "--" :: (text :: r.ignored).map .ofString
  | none => []

end Request

namespace CommandLine

namespace Token

theorem ofString_append (s s' : String) : ofString (s ++ s') = ofString s ++ ofString s' := by
  rw [ofString, String.toList_append, List.map_append]
  rfl

theorem form_long {rest : Token} (h : rest ≠ []) :
    form (ofString "--" ++ rest) = .long (cut rest).1 (cut rest).2 := by
  cases rest with
  | nil => exact absurd rfl h
  | cons glyph rest => rfl

theorem cut_tied {name value : Token} (h : ∀ glyph ∈ name, (glyph != .char '=') = true) :
    cut (name ++ ofString "=" ++ value) = (name, some value) := by
  have hequals : ofString "=" = [.char '='] := rfl
  rw [cut, List.append_assoc, List.takeWhile_append_of_pos h, List.dropWhile_append_of_pos h,
    hequals]
  simp

end Token

namespace Argument

variable {r r' last : Request} {a : Argument}

theorem form_value (s : Setting) (text : String) :
    (token (.value s text)).form = .long (.ofString s.name) (some (.ofString text)) := by
  have hname : ∀ glyph ∈ Token.ofString s.name, (glyph != .char '=') = true := by
    cases s <;> decide
  have hne : Token.ofString s.name ++ .ofString "=" ++ .ofString text ≠ [] := by
    cases s <;> exact nofun
  rw [token, String.append_assoc, String.append_assoc, Token.ofString_append,
    Token.ofString_append, Token.ofString_append, ← List.append_assoc (Token.ofString s.name),
    Token.form_long hne, Token.cut_tied hname]

theorem sets_token (h : a.tell r = .ok r') : Sets r [a.token] r' := by
  cases a with
  | value s text => exact .tied (form_value s text) h
  | switch s =>
    cases s with
    | verbose =>
      have hcluster : (token (.switch .verbose)).form = .cluster (.ofString "v") := by decide
      have hswitches : switchesOf (.ofString "v") = [Switch.verbose].map some := by decide
      refine .cluster hcluster (by decide) hswitches ?_
      replace h : Reading.turnOn r .verbose = .ok r' := h
      rw [List.foldlM_cons, h]
      rfl
    | optimize => exact .switch (s := .optimize) (by decide) h
    | noOptimize => exact .switch (s := .noOptimize) (by decide) h
    | dryRun => exact .switch (s := .dryRun) (by decide) h
    | help | version => cases h

theorem reads_tokens {as : List Argument} {rest : List Token} (h : as.foldlM tell r = .ok r')
    (hrest : Reads true r' rest last) : Reads true r (as.map token ++ rest) last := by
  induction as generalizing r with
  | nil =>
    cases h
    exact hrest
  | cons a as ih =>
    obtain ⟨r₁, ha, h⟩ := foldlM_cons_eq_ok.mp h
    rw [List.map_cons, ← List.singleton_append, List.append_assoc]
    exact .option (sets_token ha) (ih h)

end Argument

section Removal

variable {ι α : Type} [DecidableEq ι] {l : List ι} {i : ι} {a : α} {f g : ι → List α}

theorem perm_cons_flatMap (hi : i ∈ l) (hl : l.Nodup) (hhere : f i = a :: g i)
    (hthere : ∀ j, j ≠ i → f j = g j) : (l.flatMap f).Perm (a :: l.flatMap g) := by
  have herase : l.Perm (i :: l.erase i) := List.perm_cons_erase hi
  have hrest : (l.erase i).flatMap f = (l.erase i).flatMap g := by
    refine List.flatMap_congr fun j hj => hthere j ?_
    rintro rfl
    exact hl.not_mem_erase hj
  calc
    (l.flatMap f).Perm ((i :: l.erase i).flatMap f) := herase.flatMap_right f
    _ = a :: (i :: l.erase i).flatMap g := by
      rw [List.flatMap_cons, List.flatMap_cons, hhere, hrest, List.cons_append]
    (a :: (i :: l.erase i).flatMap g).Perm (a :: l.flatMap g) :=
      (herase.symm.flatMap_right g).cons a

end Removal

theorem Setting.mem_all (s : Setting) : s ∈ all := by cases s <;> decide

theorem Switch.mem_all (s : Switch) : s ∈ all := by cases s <;> decide

end CommandLine

namespace Request

variable {r : Request} {a : Argument}

theorem mem_arguments_value {s : Setting} {text : String} :
    .value s text ∈ r.arguments ↔ r.value s = some text := by
  simp [arguments, values, switches, Setting.mem_all]

theorem mem_arguments_switch {s : Switch} : .switch s ∈ r.arguments ↔ r.times s ≠ 0 := by
  simp [arguments, values, switches, Switch.mem_all]

theorem arguments_undo (ha : a ∈ r.arguments) : r.arguments.Perm (a :: (a.undo r).arguments) := by
  cases a with
  | value s text =>
    have hs : r.value s = some text := mem_arguments_value.mp ha
    have hswitches : (Argument.undo r (.value s text)).switches = r.switches := by
      funext s'
      cases s' <;> rfl
    rw [arguments, arguments, hswitches, ← List.cons_append]
    refine (perm_cons_flatMap s.mem_all (by decide) ?_ fun s' hs' => ?_).append_right _
    · simp [values, Argument.undo, hs]
    · simp [values, Argument.undo, hs']
  | switch s =>
    have hs : r.times s ≠ 0 := mem_arguments_switch.mp ha
    have hvalues : (Argument.undo r (.switch s)).values = r.values := by
      funext s'
      cases s <;> rfl
    have hhere : r.times s = (Argument.undo r (.switch s)).times s + 1 := by
      cases s <;> simp_all [times, Argument.undo]
      omega
    have hthere (s' : Switch) (hs' : s' ≠ s) :
        r.times s' = (Argument.undo r (.switch s)).times s' := by
      cases s <;> cases s' <;> first | rfl | exact absurd rfl hs'
    rw [arguments, arguments, hvalues]
    refine ((perm_cons_flatMap s.mem_all (by decide) ?_ fun s' hs' => ?_).append_left _).trans
      List.perm_middle
    · rw [switches, switches, hhere, List.replicate_succ]
    · rw [switches, switches, hthere s' hs']

/-- An option brings back what its removal has taken away. -/
theorem tell_undo (hr : r.WellFormed) (ha : a ∈ r.arguments) : a.tell (a.undo r) = .ok r := by
  cases a with
  | value s text =>
    have hs : r.value s = some text := mem_arguments_value.mp ha
    have hvalue : (fun s' => if s' = s then some text else
        (Argument.undo r (.value s text)).value s') = r.value := by
      funext s'
      by_cases hs' : s' = s
      · rw [if_pos hs', hs', hs]
      · simp [Argument.undo, hs']
    refine Reading.assign_eq_ok_iff.mpr ⟨if_pos rfl, text, Token.text?_ofString text, ?_⟩
    rw [hvalue]
    rfl
  | switch s =>
    have hs : r.times s ≠ 0 := mem_arguments_switch.mp ha
    have hswitches := hr.switches
    have hverbose := hr.verbose
    obtain ⟨coverage, ignored, value, optimize, noOptimize, dryRun, verbose⟩ := r
    cases s with
    | optimize | noOptimize | dryRun =>
      simp_all [times, Argument.tell, Argument.undo, Reading.turnOn]
    | verbose =>
      have hpos : verbose ≠ 0 := hs
      have hcount : min (verbose - 1 + 1) 255 = verbose := by
        simp only at hverbose
        omega
      rw [Argument.tell, Reading.turnOn, Argument.undo]
      dsimp only
      rw [hcount]
    | help | version => exact absurd rfl hs

theorem WellFormed.undo (hr : r.WellFormed) (a : Argument) : (a.undo r).WellFormed := by
  obtain ⟨hignored, hswitches, hverbose⟩ := hr
  cases a with
  | value s text => exact ⟨hignored, hswitches, hverbose⟩
  | switch s =>
    cases s with
    | optimize => exact ⟨hignored, fun h => Bool.false_ne_true h.1, hverbose⟩
    | noOptimize => exact ⟨hignored, fun h => Bool.false_ne_true h.2, hverbose⟩
    | dryRun | help | version => exact ⟨hignored, hswitches, hverbose⟩
    | verbose => exact ⟨hignored, hswitches, Nat.le_trans (Nat.sub_le ..) hverbose⟩

theorem coverage_undo : (a.undo r).coverage = r.coverage := by
  cases a with
  | value s text => rfl
  | switch s => cases s <;> rfl

theorem eq_empty_of_arguments (h : r.arguments = []) (hr : r.WellFormed)
    (hcoverage : r.coverage = none) : r = .empty := by
  have hvalue : r.value = fun _ => none := by
    funext s
    cases hs : r.value s with
    | none => rfl
    | some text => exact absurd (mem_arguments_value.mpr hs) (by simp [h])
  have htimes (s : Switch) : r.times s = 0 := by
    by_contra hs
    exact absurd (mem_arguments_switch.mpr hs) (by simp [h])
  have hoptimize : r.optimize = false := Bool.toNat_eq_zero.mp (htimes .optimize)
  have hnoOptimize : r.noOptimize = false := Bool.toNat_eq_zero.mp (htimes .noOptimize)
  have hdryRun : r.dryRun = false := Bool.toNat_eq_zero.mp (htimes .dryRun)
  have hverbose : r.verbose = 0 := htimes .verbose
  have hignored := hr.ignored hcoverage
  cases r
  simp_all [empty]

/-- The options of a request make it, in any order. -/
theorem foldlM_tell {as : List Argument} (has : as.Perm r.arguments) (hr : r.WellFormed)
    (hcoverage : r.coverage = none) : as.foldlM Argument.tell .empty = .ok r := by
  -- the last option is taken off the request, and what is left comes of the others
  induction as using List.reverseRecOn generalizing r with
  | nil =>
    rw [eq_empty_of_arguments has.nil_eq.symm hr hcoverage]
    rfl
  | append_singleton as a ih =>
    have ha : a ∈ r.arguments := has.subset (by simp)
    have hperm : (a :: as).Perm (a :: (a.undo r).arguments) :=
      (List.perm_append_singleton a as).symm.trans (has.trans (arguments_undo ha))
    have hundo := ih hperm.cons_inv (hr.undo a) (coverage_undo.trans hcoverage)
    rw [List.foldlM_append, hundo]
    exact foldlM_cons_eq_ok.mpr ⟨r, tell_undo hr ha, rfl⟩

end Request

namespace CommandLine

theorem arguments_bare (r : Request) :
    { r with coverage := none, ignored := [] }.arguments = r.arguments := by
  have hswitches : { r with coverage := none, ignored := [] }.switches = r.switches := by
    funext s
    cases s <;> rfl
  rw [Request.arguments, hswitches]
  rfl

theorem reads_trailing {r : Request} (hr : r.WellFormed) :
    Reads true { r with coverage := none, ignored := [] } r.trailing r := by
  obtain ⟨coverage, ignored, value, optimize, noOptimize, dryRun, verbose⟩ := r
  cases coverage with
  | none =>
    obtain rfl : ignored = [] := hr.ignored rfl
    exact .done
  | some text =>
    let covered : Request := ⟨some text, [], value, optimize, noOptimize, dryRun, verbose⟩
    have hcovered : covered.coverage ≠ none := nofun
    have hignored : Reads false covered (ignored.map .ofString)
        { covered with ignored := [] ++ ignored } := reads_ignored hcovered nofun
    exact .separator rfl (.word nofun (Token.text?_ofString text) hignored)

/-- A request comes back from its own tokens, whatever the order of its options. -/
theorem parse_of_arguments {r : Request} (hr : r.WellFormed) {options : List Token}
    (hoptions : options.Perm (r.arguments.map Argument.token)) :
    parse (options ++ r.trailing) = .ok r := by
  let bare : Request := { r with coverage := none, ignored := [] }
  have hbare : bare.WellFormed := ⟨fun _ => rfl, hr.switches, hr.verbose⟩
  have hmap : Relation.Comp (· = List.map Argument.token ·) List.Perm options bare.arguments := by
    rw [List.eq_map_comp_perm, arguments_bare]
    exact hoptions
  obtain ⟨as, rfl, has⟩ := hmap
  have htold := Request.foldlM_tell has hbare rfl
  exact parse_eq_ok_iff.mpr (Argument.reads_tokens htold (reads_trailing hr))

/-- A manifest that looks like an option, two calls for more to be told, and tokens that look like
options after the separator. -/
theorem parse_of_arguments_sample :
    let r : Request := ⟨some "--help", ["", "-v"],
      fun s => if s = .manifest then some "--target=x" else none, true, false, false, 2⟩
    let options := ["-v", "--manifest=--target=x", "--optimize", "-v"].map Token.ofString
    r.WellFormed ∧ options.Perm (r.arguments.map Argument.token) ∧
      parse (options ++ r.trailing) = .ok r := by
  intro r options
  have hr : r.WellFormed := ⟨nofun, by decide, by decide⟩
  have hoptions : options.Perm (r.arguments.map Argument.token) := by decide
  exact ⟨hr, hoptions, parse_of_arguments hr hoptions⟩

end CommandLine

end WasmBuild
