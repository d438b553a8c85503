import WasmBuild.Proofs.Formats

/-! The name of an artifact, from the description of its package. Only the names of the library and
of the package count; whatever else the description says, two with the same names have the same
artifact. -/

namespace WasmBuild

namespace Toml.Value

/-- The value at the end of a path of keys. -/
def At : Value → List String → Value → Prop
  | v, [], w => v = w
  | v, key :: path, w =>
    ∃ (entries : Table) (inner : Value), v = .table entries ∧ (key, inner) ∈ entries ∧
      inner.At path w

variable {entries : Table} {key key' : String} {v : Value}

theorem at_entry_iff : (table entries).At [key] v ↔ (key, v) ∈ entries := by
  simp [At]

theorem at_inner_iff : (table entries).At [key, key'] v ↔
    ∃ inner, (key, .table inner) ∈ entries ∧ (key', v) ∈ inner := by
  simp [At]

end Toml.Value

namespace Package

open Toml

/-- The description cannot be used: a package without a name, or a library with a name that is
no text. -/
def Malformed (doc : Value) : Prop :=
  ((∃ v, doc.At ["package"] v) ∧ ∀ s, ¬ doc.At ["package", "name"] (.string s)) ∨
    ∃ v, doc.At ["lib", "name"] v ∧ ∀ s, v ≠ .string s

def Nameless (doc : Value) : Prop :=
  (∀ v, ¬ doc.At ["lib", "name"] v) ∧ ∀ v, ¬ doc.At ["package"] v

/-- The name from which that of the artifact is made. -/
def Names (doc : Value) (name : String) : Prop :=
  doc.At ["lib", "name"] (.string name) ∨
    (∀ v, ¬ doc.At ["lib", "name"] v) ∧ doc.At ["package", "name"] (.string name)

/-- The artifact has the name with underscores for hyphens, character by character. -/
def Spells (name artifact : String) : Prop :=
  ∃ stem, artifact.toList = stem ++ ['.', 'w', 'a', 's', 'm'] ∧
    List.Forall₂ (fun c d => d = if c = '-' then '_' else c) name.toList stem

/-- Both descriptions give the library, and the package, the same name or none. -/
def SameNames (doc doc' : Value) : Prop :=
  ∀ path ∈ [["lib", "name"], ["package", "name"]], ∀ s,
    doc.At path (.string s) ↔ doc'.At path (.string s)

/-- What the description says of the package and of the library, if anything, is a table. -/
def HasTables (entries : Table) : Prop :=
  ∀ key ∈ ["package", "lib"], ∀ v, (key, v) ∈ entries → ∃ inner, v = .table inner

section Reading

variable {entries inner : Table} {package : Package} {s : String}

theorem packageName?_eq_some_iff (h : (Value.table inner).Distinct) :
    packageName? (.table inner) = some s ↔ ("name", .string s) ∈ inner := by
  simp [packageName?, Option.bind_eq_some_iff, Value.string?_eq_some_iff, h.lookup_iff]

theorem libraryName?_eq_some_iff (h : (Value.table inner).Distinct) :
    libraryName? (.table inner) = some (some s) ↔ ("name", .string s) ∈ inner := by
  constructor
  · intro hname
    obtain ⟨v, hv, hread⟩ := (eq_some_iff_of_lookup h hname).mp rfl
    rwa [Value.string?_eq_some_iff.mp hread] at hv
  · intro hname
    simp [libraryName?, Table.entry?, h.lookup_iff.mpr hname, Value.string?]

theorem ofTable?_isSome_iff (h : (Value.table entries).Distinct) (htables : HasTables entries) :
    (ofTable? entries).isSome = true ↔ ¬ Malformed (.table entries) := by
  have hparts : (ofTable? entries).isSome = true ↔
      (entries.entry? "package" packageName?).isSome = true ∧
      (entries.entry? "lib" libraryName?).isSome = true := by
    simp [ofTable?, Option.isSome_iff_exists, Option.bind_eq_some_iff]
  rw [hparts, entry?_isSome_iff h, entry?_isSome_iff h, Malformed, not_or]
  simp only [Value.at_entry_iff, Value.at_inner_iff]
  refine and_congr ⟨fun hread => ?_, fun hname v hv => ?_⟩ ⟨fun hread => ?_, fun hname v hv => ?_⟩
  · rintro ⟨⟨v, hv⟩, hnone⟩
    obtain ⟨inner, rfl⟩ := htables "package" (by simp) v hv
    obtain ⟨s, hs⟩ := Option.isSome_iff_exists.mp (hread _ hv)
    exact hnone s ⟨inner, hv, (packageName?_eq_some_iff (h.of_mem hv)).mp hs⟩
  · simp only [not_and, not_forall, not_not] at hname
    obtain ⟨s, inner, hinner, hs⟩ := hname ⟨v, hv⟩
    have hsame : v = .table inner := (h.mem_iff_of_lookup (h.lookup_iff.mpr hv)).mp hinner
    rw [hsame, (packageName?_eq_some_iff (h.of_mem hinner)).mpr hs]
    rfl
  · rintro ⟨v, ⟨inner, hinner, hv⟩, hstring⟩
    have hsome := (entry?_isSome_iff (h.of_mem hinner)).mp (hread _ hinner) v hv
    obtain ⟨s, rfl⟩ := Value.string?_isSome_iff.mp hsome
    exact hstring s rfl
  · obtain ⟨inner, rfl⟩ := htables "lib" (by simp) v hv
    refine (entry?_isSome_iff (h.of_mem hv)).mpr fun w hw => ?_
    by_contra hnot
    refine hname ⟨w, ⟨inner, hv, hw⟩, fun s hs => hnot ?_⟩
    exact Value.string?_isSome_iff.mpr ⟨s, hs⟩

/-- A name that is read of an entry is the one that stands in its table. -/
theorem eq_some_iff_at_name {α : Type} {key : String} {read : Value → Option α} {a? : Option α}
    {a : α} (h : (Value.table entries).Distinct)
    (htable : ∀ v, (key, v) ∈ entries → ∃ inner, v = .table inner)
    (hread : ∀ inner : Table, (Value.table inner).Distinct →
      (read (.table inner) = some a ↔ ("name", .string s) ∈ inner))
    (hentry : entries.entry? key read = some a?) :
    a? = some a ↔ (Value.table entries).At [key, "name"] (.string s) := by
  rw [eq_some_iff_of_lookup h hentry, Value.at_inner_iff]
  constructor
  · rintro ⟨v, hv, hname⟩
    obtain ⟨inner, rfl⟩ := htable v hv
    exact ⟨inner, hv, (hread inner (h.of_mem hv)).mp hname⟩
  · rintro ⟨inner, hinner, hs⟩
    exact ⟨_, hinner, (hread inner (h.of_mem hinner)).mpr hs⟩

theorem packageName_iff (h : (Value.table entries).Distinct) (htables : HasTables entries)
    (hpackage : ofTable? entries = some package) :
    package.packageName = some s ↔ (Value.table entries).At ["package", "name"] (.string s) := by
  obtain ⟨name, hname, hrest⟩ := Option.bind_eq_some_iff.mp hpackage
  obtain ⟨library, -, hsome⟩ := Option.bind_eq_some_iff.mp hrest
  obtain rfl := Option.some.inj hsome
  have htable := htables "package" (by simp)
  exact eq_some_iff_at_name h htable (fun _ => packageName?_eq_some_iff) hname

theorem libraryName_iff (h : (Value.table entries).Distinct) (htables : HasTables entries)
    (hpackage : ofTable? entries = some package) :
    package.libraryName = some s ↔ (Value.table entries).At ["lib", "name"] (.string s) := by
  obtain ⟨name, -, hrest⟩ := Option.bind_eq_some_iff.mp hpackage
  obtain ⟨library, hlibrary, hsome⟩ := Option.bind_eq_some_iff.mp hrest
  obtain rfl := Option.some.inj hsome
  have htable := htables "lib" (by simp)
  rw [Option.join_eq_some_iff]
  exact eq_some_iff_at_name h htable (fun _ => libraryName?_eq_some_iff) hlibrary

/-- The library has no name at all, when it has none that is text. -/
theorem libraryName_eq_none_iff (h : (Value.table entries).Distinct)
    (htables : HasTables entries) (hpackage : ofTable? entries = some package) :
    package.libraryName = none ↔ ∀ v, ¬ (Value.table entries).At ["lib", "name"] v := by
  have hgood := (ofTable?_isSome_iff h htables).mp (Option.isSome_of_eq_some hpackage)
  simp only [Option.eq_none_iff_forall_ne_some, ne_eq, libraryName_iff h htables hpackage]
  refine ⟨fun hnone v hv => hgood (.inr ⟨v, hv, ?_⟩), fun hnone s => hnone _⟩
  rintro s rfl
  exact hnone s hv

theorem packageName_eq_none_iff (h : (Value.table entries).Distinct)
    (htables : HasTables entries) (hpackage : ofTable? entries = some package) :
    package.packageName = none ↔ ∀ v, ¬ (Value.table entries).At ["package"] v := by
  have hgood := (ofTable?_isSome_iff h htables).mp (Option.isSome_of_eq_some hpackage)
  simp only [Option.eq_none_iff_forall_ne_some, ne_eq, packageName_iff h htables hpackage]
  refine ⟨fun hnone v hv => hgood (.inl ⟨⟨v, hv⟩, hnone⟩), fun hnone s hs => ?_⟩
  obtain ⟨inner, hinner, -⟩ := Value.at_inner_iff.mp hs
  exact hnone _ (Value.at_entry_iff.mpr hinner)

theorem name?_eq_some_iff (h : (Value.table entries).Distinct) (htables : HasTables entries)
    (hpackage : ofTable? entries = some package) :
    package.name? = some s ↔ Names (.table entries) s := by
  rw [name?, Names, ← libraryName_iff h htables hpackage, ← packageName_iff h htables hpackage,
    ← libraryName_eq_none_iff h htables hpackage]
  cases package.libraryName <;> simp

theorem name?_eq_none_iff (h : (Value.table entries).Distinct) (htables : HasTables entries)
    (hpackage : ofTable? entries = some package) :
    package.name? = none ↔ Nameless (.table entries) := by
  rw [name?, Nameless, ← libraryName_eq_none_iff h htables hpackage,
    ← packageName_eq_none_iff h htables hpackage]
  cases package.libraryName <;> simp

theorem name?_eq_of_sameNames {entries' : Table} {package' : Package}
    (h : (Value.table entries).Distinct) (htables : HasTables entries)
    (hpackage : ofTable? entries = some package) (h' : (Value.table entries').Distinct)
    (htables' : HasTables entries') (hpackage' : ofTable? entries' = some package')
    (hsame : SameNames (.table entries) (.table entries')) : package.name? = package'.name? := by
  have hlibrary : package.libraryName = package'.libraryName := by
    ext s
    rw [libraryName_iff h htables hpackage, libraryName_iff h' htables' hpackage']
    exact hsame ["lib", "name"] (by simp) s
  have hname : package.packageName = package'.packageName := by
    ext s
    rw [packageName_iff h htables hpackage, packageName_iff h' htables' hpackage']
    exact hsame ["package", "name"] (by simp) s
  rw [name?, name?, hlibrary, hname]

end Reading

section Spelling

theorem spells_artifactFor (name : String) : Spells name (artifactFor name) := by
  refine ⟨name.toList.map fun c => if c = '-' then '_' else c, ?_, ?_⟩
  · simp [artifactFor]
  · rw [List.forall₂_map_right_iff]
    exact List.forall₂_same.mpr fun _ _ => rfl

theorem Spells.hyphen_not_mem {name artifact : String} (h : Spells name artifact) :
    '-' ∉ artifact.toList := by
  obtain ⟨stem, hartifact, hstem⟩ := h
  have hnot : '-' ∉ stem := by
    clear hartifact
    generalize name.toList = cs at hstem
    induction hstem with
    | nil => exact List.not_mem_nil
    | @cons c d _ _ hd _ ih =>
      have hne : '-' ≠ d := by
        by_cases hc : c = '-'
        · simp [hd, hc]
        · simpa [hd, hc] using Ne.symm hc
      simp [hne, ih]
  rw [hartifact]
  simp [hnot]

end Spelling

section Loading

variable [Dialect] {d : Disk} {p : Path} {text : String}

theorem loadArtifact_of_read (hread : d.read p = .ok text.toUTF8) :
    loadArtifact d p = artifactOf p text := by
  rw [loadArtifact, Disk.readText_of_read hread]

theorem artifactOf_of_package {package : Package}
    (h : (Dialect.read? text).bind ofTable? = some package) :
    artifactOf p text =
      (package.name?.map artifactFor).elim (.error (.noArtifactName p)) Except.ok := by
  rw [artifactOf, h]
  dsimp only
  cases package.name? <;> rfl

theorem artifactOf_eq_invalidToml_iff :
    artifactOf p text = .error (.invalidToml ⟨p, Dialect.complaint .package text⟩) ↔
      (Dialect.read? text).bind ofTable? = none := by
  cases hpackage : (Dialect.read? text).bind ofTable? with
  | none => simp [artifactOf, hpackage]
  | some package =>
    rw [artifactOf_of_package hpackage]
    cases package.name? <;> simp

theorem artifactOf_eq_ok_iff {artifact : String} : artifactOf p text = .ok artifact ↔
    ∃ package name, (Dialect.read? text).bind ofTable? = some package ∧ package.name? = some name ∧
      artifact = artifactFor name := by
  cases hpackage : (Dialect.read? text).bind ofTable? with
  | none => simp [artifactOf, hpackage]
  | some package =>
    rw [artifactOf_of_package hpackage]
    cases hname : package.name? <;> simp [hname, eq_comm]

end Loading

/-- An unusable description is refused, whatever names it has; of the others, one without a name
has no artifact, and the artifact of any other one spells the name of the library, or else that of
the package. -/
theorem loadArtifact_of_names [Dialect] [LawfulDialect] {d : Disk} {p : Path} {text : String}
    (hread : d.read p = .ok text.toUTF8)
    (htables : ∀ entries, Dialect.read? text = some entries → HasTables entries) :
    let refusal : Refusal := ⟨p, Dialect.complaint .package text⟩
    (loadArtifact d p = .error (.invalidToml refusal) ↔ Dialect.read? text = none ∨
      ∃ entries, Dialect.read? text = some entries ∧ Malformed (.table entries)) ∧
    (loadArtifact d p ≠ .error (.invalidToml refusal) →
      ∃ entries, Dialect.read? text = some entries ∧
        (loadArtifact d p = .error (.noArtifactName p) ↔ Nameless (.table entries)) ∧
        (loadArtifact d p ≠ .error (.noArtifactName p) →
          ∃ name artifact, Names (.table entries) name ∧ Spells name artifact ∧
            loadArtifact d p = .ok artifact)) ∧
    (∀ artifact, loadArtifact d p = .ok artifact → '-' ∉ artifact.toList) ∧
    ∀ {d' : Disk} {p' : Path} {text' : String} {entries entries' : Table},
      d'.read p' = .ok text'.toUTF8 → Dialect.read? text' = some entries' → HasTables entries' →
      Dialect.read? text = some entries → SameNames (.table entries) (.table entries') →
      ∀ artifact artifact', loadArtifact d p = .ok artifact → loadArtifact d' p' = .ok artifact' →
        artifact = artifact' := by
  intro refusal
  rw [loadArtifact_of_read hread]
  refine ⟨?_, fun hvalid => ?_, fun artifact hartifact => ?_, ?_⟩
  · rw [artifactOf_eq_invalidToml_iff, Option.bind_eq_none_iff]
    cases hparse : Dialect.read? text with
    | none => simp
    | some entries =>
      have hgood := ofTable?_isSome_iff (LawfulDialect.distinct hparse) (htables entries hparse)
      have hbad : ofTable? entries = none ↔ Malformed (.table entries) := by
        rw [← Option.not_isSome_iff_eq_none, hgood, not_not]
      simp [hbad]
  · obtain ⟨package, hpackage⟩ := Option.ne_none_iff_exists'.mp
      (mt artifactOf_eq_invalidToml_iff.mpr hvalid)
    obtain ⟨entries, hparse, htable⟩ := Option.bind_eq_some_iff.mp hpackage
    have hdistinct := LawfulDialect.distinct hparse
    have htables := htables entries hparse
    rw [artifactOf_of_package hpackage]
    refine ⟨entries, hparse, ?_, fun hnamed => ?_⟩
    · rw [← name?_eq_none_iff hdistinct htables htable]
      cases package.name? <;> simp
    · cases hname : package.name? with
      | none => simp [hname] at hnamed
      | some name =>
        exact ⟨name, artifactFor name, (name?_eq_some_iff hdistinct htables htable).mp hname,
          spells_artifactFor name, rfl⟩
  · obtain ⟨package, name, -, -, rfl⟩ := artifactOf_eq_ok_iff.mp hartifact
    exact (spells_artifactFor name).hyphen_not_mem
  · intro d' p' text' entries entries' hread' hparse' htables' hparse hsame artifact artifact' h h'
    rw [loadArtifact_of_read hread'] at h'
    obtain ⟨package, name, hpackage, hname, rfl⟩ := artifactOf_eq_ok_iff.mp h
    obtain ⟨package', name', hpackage', hname', rfl⟩ := artifactOf_eq_ok_iff.mp h'
    rw [hparse] at hpackage
    rw [hparse'] at hpackage'
    have hnames := name?_eq_of_sameNames (LawfulDialect.distinct hparse) (htables entries hparse)
      hpackage (LawfulDialect.distinct hparse') htables' hpackage' hsame
    rw [hname, hname', Option.some.injEq] at hnames
    rw [hnames]

/-- Two descriptions that say the same names in different ways. -/
theorem loadArtifact_of_names_sample :
    let text := "[package]\nname = 'ft'\n[lib]\nname = 'a-b'"
    let other := "lib.name = 'a-b'\npackage.name = 'ft'\npackage.edition = '2021'"
    let d : Disk := ⟨(FileSystem.empty.edit [] (.write "/c".toUTF8 text.toUTF8)).edit []
      (.write "/d".toUTF8 other.toUTF8), []⟩
    ∃ artifact, loadArtifact d ⟨"/c"⟩ = .ok artifact ∧ loadArtifact d ⟨"/d"⟩ = .ok artifact ∧
      '-' ∉ artifact.toList := by
  intro text other d
  have hparse : Dialect.read? text = some [("package", .table [("name", .string "ft")]),
      ("lib", .table [("name", .string "a-b")])] := by cbv
  have hparse' : Dialect.read? other = some [("lib", .table [("name", .string "a-b")]),
      ("package", .table [("name", .string "ft"), ("edition", .string "2021")])] := by cbv
  have hread : d.read ⟨"/c"⟩ = .ok text.toUTF8 := by decide +kernel
  have hread' : d.read ⟨"/d"⟩ = .ok other.toUTF8 := by decide +kernel
  have htables : ∀ entries, Dialect.read? text = some entries → HasTables entries := by
    intro entries h
    obtain rfl := Option.some.inj (hparse.symm.trans h)
    simp [HasTables]
  have htables' : ∀ entries, Dialect.read? other = some entries → HasTables entries := by
    intro entries h
    obtain rfl := Option.some.inj (hparse'.symm.trans h)
    simp [HasTables]
  obtain ⟨-, hnamed, hhyphen, hagree⟩ := loadArtifact_of_names hread htables
  obtain ⟨_, -, -, hother⟩ := (loadArtifact_of_names hread' htables').2.1 (by decide +kernel)
  obtain ⟨_, -, -, hartifact⟩ := hnamed (by decide +kernel)
  obtain ⟨name, artifact, -, -, hload⟩ := hartifact (by decide +kernel)
  obtain ⟨name', artifact', -, -, hload'⟩ := hother (by decide +kernel)
  have hsame : artifact = artifact' := by
    refine hagree hread' hparse' (htables' _ hparse') hparse ?_ artifact artifact' hload hload'
    simp [SameNames, Value.at_inner_iff]
  exact ⟨artifact, hload, hsame ▸ hload', hhyphen artifact hload⟩

end Package

end WasmBuild
