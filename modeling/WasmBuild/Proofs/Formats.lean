import WasmBuild.Proofs.Canonical
import WasmBuild.Proofs.Tables

/-! The format of a manifest. It says which entries a table may have and what kind of value stands
under each. A manifest is loaded just from the texts of tables that fit the format, and holds the
values of their entries. -/

namespace WasmBuild

theorem Disk.readText_of_read {d : Disk} {p : Path} {text : String}
    (h : d.read p = .ok text.toUTF8) : d.readText p = .ok text := by
  rw [readText, h]
  dsimp only
  rw [Text.fromUTF8?_eq_some_iff.mpr rfl]

/-- What is read when the input fits, and fits it in one way only, is read just then. -/
theorem eq_some_iff_of_unique {α : Type} {read : Option α} {fits : Prop} {holds : α → Prop} {a : α}
    (hread : read.isSome = true ↔ fits) (hholds : ∀ a, read = some a → holds a)
    (hunique : ∀ a b, holds a → holds b → a = b) : read = some a ↔ fits ∧ holds a := by
  constructor
  · intro ha
    exact ⟨hread.mp (ha ▸ rfl), hholds a ha⟩
  · rintro ⟨hfits, ha⟩
    obtain ⟨b, hb⟩ := Option.isSome_iff_exists.mp (hread.mpr hfits)
    rw [hb, hunique b a (hholds b hb) ha]

namespace Toml

/-- The entries that a table may have, each with the kind of its values. -/
abbrev Fields := List (String × (Value → Prop))

/-- Every entry of the table is one of the fields; no field need be there. -/
def Table.Fits (entries : Table) (fields : Fields) : Prop :=
  ∀ e ∈ entries, ∃ kind, (e.1, kind) ∈ fields ∧ kind e.2

namespace Value

def IsBoolean (v : Value) : Prop := ∃ b, v = .boolean b

def IsString (v : Value) : Prop := ∃ s, v = .string s

def IsStrings (v : Value) : Prop := ∃ ss : List String, v = .array (ss.map .string)

def IsTable (fields : Fields) (v : Value) : Prop :=
  ∃ entries : Table, v = .table entries ∧ entries.Fits fields

variable {v : Value}

theorem boolean?_eq_some_iff {b : Bool} : v.boolean? = some b ↔ v = .boolean b := by
  cases v <;> simp [boolean?]

theorem string?_eq_some_iff {s : String} : v.string? = some s ↔ v = .string s := by
  cases v <;> simp [string?]

theorem mapM_string?_eq_some_iff {items : List Value} {ss : List String} :
    items.mapM string? = some ss ↔ items = ss.map .string := by
  induction items generalizing ss with
  | nil => cases ss <;> simp
  | cons item rest ih =>
    cases ss with
    | nil => simp [List.mapM_cons, Option.bind_eq_some_iff]
    | cons s more => simp [List.mapM_cons, Option.bind_eq_some_iff, string?_eq_some_iff, ih]

theorem strings?_eq_some_iff {ss : List String} :
    v.strings? = some ss ↔ v = .array (ss.map .string) := by
  cases v <;> simp [strings?, mapM_string?_eq_some_iff]

theorem boolean?_isSome_iff : v.boolean?.isSome = true ↔ v.IsBoolean := by
  simp [Option.isSome_iff_exists, boolean?_eq_some_iff, IsBoolean]

theorem string?_isSome_iff : v.string?.isSome = true ↔ v.IsString := by
  simp [Option.isSome_iff_exists, string?_eq_some_iff, IsString]

theorem strings?_isSome_iff : v.strings?.isSome = true ↔ v.IsStrings := by
  simp [Option.isSome_iff_exists, strings?_eq_some_iff, IsStrings]

end Value

section Entries

variable {entries : Table} {fields : Fields} {key : String} {α : Type}

theorem fits_iff (h : (fields.map Prod.fst).Nodup) : entries.Fits fields ↔
    entries.hasOnly (fields.map Prod.fst) = true ∧
      ∀ field ∈ fields, ∀ v, (field.1, v) ∈ entries → field.2 v := by
  rw [Table.hasOnly, List.all_eq_true]
  constructor
  · intro hfits
    constructor
    · intro e he
      obtain ⟨kind, hkind, -⟩ := hfits e he
      simpa using ⟨kind, hkind⟩
    · intro field hfield v hv
      obtain ⟨kind, hkind, hvalue⟩ := hfits _ hv
      have hsame : some kind = some field.2 := by
        rw [← (lookup_eq_some_iff_mem h).mpr hkind, ← (lookup_eq_some_iff_mem h).mpr hfield]
      exact Option.some.inj hsame ▸ hvalue
  · rintro ⟨hkeys, hkinds⟩ e he
    obtain ⟨kind, hkind⟩ : ∃ kind, (e.1, kind) ∈ fields := by simpa using hkeys e he
    exact ⟨kind, hkind, hkinds _ hkind e.2 he⟩

theorem Value.Distinct.mem_iff_of_lookup {v w : Value} (h : (Value.table entries).Distinct)
    (hkey : entries.lookup key = some v) : (key, w) ∈ entries ↔ v = w := by
  rw [← h.lookup_iff, hkey, Option.some.injEq]

variable {read : Value → Option α} {a? : Option α} {a : α}

theorem entry?_isSome_iff (h : (Value.table entries).Distinct) :
    (entries.entry? key read).isSome = true ↔ ∀ v, (key, v) ∈ entries → (read v).isSome = true := by
  rw [Table.entry?]
  cases hkey : entries.lookup key with
  | none => simp [lookup_eq_none_iff_not_mem.mp hkey]
  | some v => simp [h.mem_iff_of_lookup hkey]

/-- What is read of an entry is what its value means. -/
theorem eq_some_iff_of_lookup (h : (Value.table entries).Distinct)
    (hentry : entries.entry? key read = some a?) :
    a? = some a ↔ ∃ v, (key, v) ∈ entries ∧ read v = some a := by
  rw [Table.entry?] at hentry
  cases hkey : entries.lookup key with
  | none =>
    rw [hkey] at hentry
    cases hentry
    simp [lookup_eq_none_iff_not_mem.mp hkey]
  | some v =>
    rw [hkey] at hentry
    obtain ⟨b, hread, rfl⟩ := Option.map_eq_some_iff.mp hentry
    simp [h.mem_iff_of_lookup hkey, hread]

end Entries

end Toml

namespace OptimizeSection

open Toml

def fields : Fields :=
  [("enabled", Value.IsBoolean), ("tool", Value.IsString), ("args", Value.IsStrings)]

/-- The section has the values of the table; it is not enabled unless the table says so. -/
structure Holds (s : OptimizeSection) (entries : Table) : Prop where
  enabled : s.enabled = true ↔ ("enabled", .boolean true) ∈ entries
  tool : ∀ tool, s.tool = some tool ↔ ("tool", .string tool) ∈ entries
  args : ∀ args, s.args = some args ↔ ("args", .array (args.map .string)) ∈ entries

variable {entries : Table} {s other : OptimizeSection}

theorem Holds.unique (h : s.Holds entries) (hother : other.Holds entries) : s = other := by
  have henabled : s.enabled = other.enabled := by
    rw [Bool.eq_iff_iff, h.enabled, hother.enabled]
  have htool : s.tool = other.tool := by
    ext tool
    rw [h.tool, hother.tool]
  have hargs : s.args = other.args := by
    ext args
    rw [h.args, hother.args]
  cases s
  cases other
  cases henabled
  cases htool
  cases hargs
  rfl

theorem ofTable?_isSome_iff (h : (Value.table entries).Distinct) :
    (ofTable? entries).isSome = true ↔ entries.Fits fields := by
  have hparts : (ofTable? entries).isSome = true ↔ entries.hasOnly keys = true ∧
      (entries.entry? "enabled" Value.boolean?).isSome = true ∧
      (entries.entry? "tool" Value.string?).isSome = true ∧
      (entries.entry? "args" Value.strings?).isSome = true := by
    simp [ofTable?, Option.isSome_iff_exists, Option.bind_eq_some_iff, guard]
  rw [hparts, fits_iff (by decide)]
  simp [fields, keys, entry?_isSome_iff h, Value.boolean?_isSome_iff, Value.string?_isSome_iff,
    Value.strings?_isSome_iff]

theorem holds_of_ofTable? (h : (Value.table entries).Distinct) (hs : ofTable? entries = some s) :
    s.Holds entries := by
  obtain ⟨-, -, hs⟩ := Option.bind_eq_some_iff.mp hs
  obtain ⟨enabled, henabled, hs⟩ := Option.bind_eq_some_iff.mp hs
  obtain ⟨tool, htool, hs⟩ := Option.bind_eq_some_iff.mp hs
  obtain ⟨args, hargs, hs⟩ := Option.bind_eq_some_iff.mp hs
  obtain rfl := Option.some.inj hs
  have henabled (b : Bool) := eq_some_iff_of_lookup (a := b) h henabled
  refine ⟨?_, fun t => ?_, fun ss => ?_⟩
  · have htrue : enabled.getD false = true ↔ enabled = some true := by
      cases enabled <;> simp
    rw [htrue, henabled]
    simp [Value.boolean?_eq_some_iff]
  · rw [eq_some_iff_of_lookup h htool]
    simp [Value.string?_eq_some_iff]
  · rw [eq_some_iff_of_lookup h hargs]
    simp [Value.strings?_eq_some_iff]

theorem ofTable?_eq_some_iff (h : (Value.table entries).Distinct) :
    ofTable? entries = some s ↔ entries.Fits fields ∧ s.Holds entries :=
  eq_some_iff_of_unique (ofTable?_isSome_iff h) (fun _ => holds_of_ofTable? h)
    fun _ _ => Holds.unique

end OptimizeSection

namespace Manifest

open Toml

def fields : Fields :=
  [("artifact", Value.IsString), ("target", Value.IsString), ("res_dir", Value.IsString),
    ("flags_file", Value.IsString), ("coverage_dir", Value.IsString),
    ("optimize", Value.IsTable OptimizeSection.fields)]

/-- The manifest has the values of the table, and nothing where the table has no entry. -/
structure Holds (m : Manifest) (entries : Table) : Prop where
  artifact : ∀ s, m.artifact = some s ↔ ("artifact", .string s) ∈ entries
  target : ∀ s, m.target = some s ↔ ("target", .string s) ∈ entries
  resDir : ∀ s, m.resDir = some s ↔ ("res_dir", .string s) ∈ entries
  flagsFile : ∀ s, m.flagsFile = some s ↔ ("flags_file", .string s) ∈ entries
  coverageDir : ∀ s, m.coverageDir = some s ↔ ("coverage_dir", .string s) ∈ entries
  optimize : ∀ s, m.optimize = some s ↔ ∃ inner, ("optimize", .table inner) ∈ entries ∧ s.Holds inner

variable {entries : Table} {m other : Manifest}

theorem Holds.unique (h : m.Holds entries) (hother : other.Holds entries) : m = other := by
  have hentry {α : Type} {x y : Option α} {p : α → Prop} (hx : ∀ a, x = some a ↔ p a)
      (hy : ∀ a, y = some a ↔ p a) : x = y := by
    ext a
    rw [hx, hy]
  cases m
  cases other
  congr
  · exact hentry h.artifact hother.artifact
  · exact hentry h.target hother.target
  · exact hentry h.resDir hother.resDir
  · exact hentry h.flagsFile hother.flagsFile
  · exact hentry h.coverageDir hother.coverageDir
  · exact hentry h.optimize hother.optimize

/-- An entry for the section, if any, is a table. -/
def HasSection (entries : Table) : Prop :=
  ∀ v, ("optimize", v) ∈ entries → ∃ inner, v = .table inner

theorem ofTable?_isSome_iff (h : (Value.table entries).Distinct) (hsection : HasSection entries) :
    (ofTable? entries).isSome = true ↔ entries.Fits fields := by
  have hparts : (ofTable? entries).isSome = true ↔ entries.hasOnly keys = true ∧
      (entries.entry? "artifact" Value.string?).isSome = true ∧
      (entries.entry? "target" Value.string?).isSome = true ∧
      (entries.entry? "res_dir" Value.string?).isSome = true ∧
      (entries.entry? "flags_file" Value.string?).isSome = true ∧
      (entries.entry? "coverage_dir" Value.string?).isSome = true ∧
      (entries.entry? "optimize" OptimizeSection.ofValue?).isSome = true := by
    simp [ofTable?, Option.isSome_iff_exists, Option.bind_eq_some_iff, guard]
  have hoptimize : (∀ v, ("optimize", v) ∈ entries → (OptimizeSection.ofValue? v).isSome = true) ↔
      ∀ v, ("optimize", v) ∈ entries → v.IsTable OptimizeSection.fields := by
    refine forall₂_congr fun v hv => ?_
    obtain ⟨inner, rfl⟩ := hsection v hv
    rw [OptimizeSection.ofValue?, OptimizeSection.ofTable?_isSome_iff (h.of_mem hv)]
    simp [Value.IsTable]
  rw [hparts, fits_iff (by decide)]
  simp [fields, keys, entry?_isSome_iff h, Value.string?_isSome_iff, hoptimize]

theorem holds_of_ofTable? (h : (Value.table entries).Distinct) (hsection : HasSection entries)
    (hm : ofTable? entries = some m) : m.Holds entries := by
  have hstring {key : String} {a? : Option String}
      (hentry : entries.entry? key Value.string? = some a?) (s : String) :
      a? = some s ↔ (key, .string s) ∈ entries := by
    rw [eq_some_iff_of_lookup h hentry]
    simp [Value.string?_eq_some_iff]
  obtain ⟨-, -, hm⟩ := Option.bind_eq_some_iff.mp hm
  obtain ⟨artifact, hartifact, hm⟩ := Option.bind_eq_some_iff.mp hm
  obtain ⟨target, htarget, hm⟩ := Option.bind_eq_some_iff.mp hm
  obtain ⟨resDir, hresDir, hm⟩ := Option.bind_eq_some_iff.mp hm
  obtain ⟨flagsFile, hflagsFile, hm⟩ := Option.bind_eq_some_iff.mp hm
  obtain ⟨coverageDir, hcoverageDir, hm⟩ := Option.bind_eq_some_iff.mp hm
  obtain ⟨optimize, hoptimize, hm⟩ := Option.bind_eq_some_iff.mp hm
  obtain rfl := Option.some.inj hm
  refine ⟨hstring hartifact, hstring htarget, hstring hresDir, hstring hflagsFile,
    hstring hcoverageDir, fun s => ?_⟩
  rw [eq_some_iff_of_lookup h hoptimize]
  constructor
  · rintro ⟨v, hv, hs⟩
    obtain ⟨inner, rfl⟩ := hsection v hv
    exact ⟨inner, hv, OptimizeSection.holds_of_ofTable? (h.of_mem hv) hs⟩
  · rintro ⟨inner, hv, hs⟩
    have hread := (entry?_isSome_iff h).mp (Option.isSome_of_eq_some hoptimize) _ hv
    have hfits := (OptimizeSection.ofTable?_isSome_iff (h.of_mem hv)).mp hread
    exact ⟨_, hv, (OptimizeSection.ofTable?_eq_some_iff (h.of_mem hv)).mpr ⟨hfits, hs⟩⟩

theorem ofTable?_eq_some_iff (h : (Value.table entries).Distinct) (hsection : HasSection entries) :
    ofTable? entries = some m ↔ entries.Fits fields ∧ m.Holds entries :=
  eq_some_iff_of_unique (ofTable?_isSome_iff h hsection) (fun _ => holds_of_ofTable? h hsection)
    fun _ _ => Holds.unique

section Loading

variable [Dialect]

theorem parse_eq_ok_iff [LawfulDialect] {p : Path} {text : String}
    (hsection : ∀ entries, Dialect.read? text = some entries → HasSection entries) :
    parse p text = .ok m ↔
      ∃ entries, Dialect.read? text = some entries ∧ entries.Fits fields ∧ m.Holds entries := by
  rw [Config.manifest_parse_eq_ok_iff, Option.bind_eq_some_iff]
  refine exists_congr fun entries => and_congr_right fun hparse => ?_
  exact ofTable?_eq_some_iff (LawfulDialect.distinct hparse) (hsection entries hparse)

theorem parse_eq_error {p : Path} {text : String} (h : ∀ m, parse p text ≠ .ok m) :
    parse p text = .error (.invalidToml ⟨p, Dialect.complaint .manifest text⟩) := by
  unfold parse at h ⊢
  split
  · next m hm => exact absurd (by rw [hm]) (h m)
  · rfl

/-- A manifest is loaded just when its text is that of a table in the format, and it holds what the
table does. Any other text is refused, and so is a file that cannot be read as text. -/
theorem load_iff_fits [LawfulDialect] (d : Disk) (p : Path) :
    (∀ text : String, d.read p = .ok text.toUTF8 →
      (∀ entries, Dialect.read? text = some entries → HasSection entries) →
      ((∃ m, load d p = .ok m) ↔
        ∃ entries, Dialect.read? text = some entries ∧ entries.Fits fields) ∧
      (∀ m, load d p = .ok m ↔
        ∃ entries, Dialect.read? text = some entries ∧ entries.Fits fields ∧ m.Holds entries) ∧
      ((∀ m, load d p ≠ .ok m) →
        load d p = .error (.invalidToml ⟨p, Dialect.complaint .manifest text⟩))) ∧
    (∀ content, d.read p = .ok content → (∀ text : String, content ≠ text.toUTF8) →
      load d p = .error (.io p .notText)) ∧
    (∀ e, d.read p = .error e → load d p = .error (.io p e)) := by
  refine ⟨fun text hread hsection => ?_, fun content hread hcontent => ?_, fun e hread => ?_⟩
  · have hload : load d p = parse p text := by
      rw [load, Disk.readText_of_read hread]
    have hfits (entries : Table) (hparse : Dialect.read? text = some entries) :=
      ofTable?_isSome_iff (LawfulDialect.distinct hparse) (hsection entries hparse)
    rw [hload]
    refine ⟨?_, fun m => parse_eq_ok_iff hsection, parse_eq_error⟩
    simp only [Config.manifest_parse_eq_ok_iff, Option.bind_eq_some_iff]
    rw [exists_comm]
    refine exists_congr fun entries => ?_
    rw [exists_and_left, ← Option.isSome_iff_exists]
    exact and_congr_right fun hparse => hfits entries hparse
  · have hnone : String.fromUTF8? content = none := by
      cases htext : String.fromUTF8? content with
      | none => rfl
      | some text => exact absurd (Text.fromUTF8?_eq_some_iff.mp htext) (hcontent text)
    rw [load, Disk.readText, hread]
    simp only [hnone]
  · rw [load, Disk.readText, hread]

end Loading

/-- A manifest with a section, a file that is no text, and one that is missing. -/
theorem load_iff_fits_sample :
    let text := "artifact = 'a.wasm'\n[optimize]\nargs = ['-O3']"
    let d : Disk := ⟨(FileSystem.empty.edit [] (.write "/m".toUTF8 text.toUTF8)).edit []
      (.write "/b".toUTF8 ⟨#[0xFF]⟩), []⟩
    load d ⟨"/m"⟩ =
      .ok ⟨some "a.wasm", none, none, none, none, some ⟨false, none, some ["-O3"]⟩⟩ ∧
    load d ⟨"/b"⟩ = .error (.io ⟨"/b"⟩ .notText) ∧
    load d ⟨"/n"⟩ = .error (.io ⟨"/n"⟩ (.os .noEntry)) := by
  intro text d
  have hparse : Dialect.read? text = some [("artifact", .string "a.wasm"),
      ("optimize", .table [("args", .array [.string "-O3"])])] := by cbv
  have hread : d.read ⟨"/m"⟩ = .ok text.toUTF8 := by decide +kernel
  have hbinary : d.read ⟨"/b"⟩ = .ok ⟨#[0xFF]⟩ := by decide +kernel
  have hnone : d.read ⟨"/n"⟩ = .error (.os .noEntry) := by decide +kernel
  have hnotext (other : String) : (⟨#[0xFF]⟩ : ByteArray) ≠ other.toUTF8 := by
    intro h
    have hsome := Text.fromUTF8?_eq_some_iff.mpr h
    rw [show String.fromUTF8? ⟨#[0xFF]⟩ = none by decide +kernel] at hsome
    cases hsome
  have hsection : ∀ entries, Dialect.read? text = some entries → HasSection entries := by
    intro entries h
    obtain rfl := Option.some.inj (hparse.symm.trans h)
    simp [HasSection]
  have hfits := (ofTable?_eq_some_iff (distinct_of_parse hparse) (hsection _ hparse)).mp rfl
  refine ⟨?_, ?_, ?_⟩
  · exact ((load_iff_fits d ⟨"/m"⟩).1 text hread hsection).2.1 _ |>.mpr ⟨_, hparse, hfits⟩
  · exact (load_iff_fits d ⟨"/b"⟩).2.1 _ hbinary hnotext
  · exact (load_iff_fits d ⟨"/n"⟩).2.2 _ hnone

end Manifest

end WasmBuild
