import WasmBuild.CommandLine.Reading

/-! The reading of a command line in its steps. What a reading holds back comes to a request when
it is settled, and the steps are told by that request. A text that is none stays with the reading
to the end, so that nothing comes of it. -/

namespace WasmBuild

/-- The first text that belongs to no option may ask for coverage, and the others are ignored. -/
def Request.receive (r : Request) (text : String) : Request :=
  if r.coverage = none then { r with coverage := some text }
  else { r with ignored := r.ignored ++ [text] }

namespace CommandLine

namespace Token

open Text (Glyph)

/-- The token belongs to no option: it is a word, or a negative number. -/
def isPlain (t : Token) : Bool :=
  match t.form with
  | .word => true
  | .cluster shorts => isNumber shorts
  | _ => false

variable {t : Token} {s : String}

theorem mapM_char?_eq_some_iff {cs : List Char} :
    t.mapM Glyph.char? = some cs ↔ t = cs.map Glyph.char := by
  induction t generalizing cs with
  | nil => cases cs <;> simp [pure]
  | cons glyph rest ih =>
    cases glyph with
    | stray bytes => cases cs <;> simp [Glyph.char?]
    | char c =>
      have hcons : (Glyph.char c :: rest : Token).mapM Glyph.char? =
          (rest.mapM Glyph.char?).map (c :: ·) := by
        rw [List.mapM_cons]
        cases rest.mapM Glyph.char? <;> rfl
      rw [hcons, Option.map_eq_some_iff]
      constructor
      · rintro ⟨cs', hcs', rfl⟩
        rw [ih.mp hcs', List.map_cons]
      · intro h
        cases cs with
        | nil => cases h
        | cons c' cs' =>
          obtain ⟨hc, hrest⟩ := List.cons.inj h
          cases hc
          exact ⟨cs', ih.mpr hrest, rfl⟩

theorem text?_eq_some_iff : t.text? = some s ↔ t = ofString s := by
  rw [text?, Option.map_eq_some_iff, ofString]
  constructor
  · rintro ⟨cs, hcs, rfl⟩
    rw [String.toList_ofList, mapM_char?_eq_some_iff.mp hcs]
  · rintro rfl
    exact ⟨s.toList, mapM_char?_eq_some_iff.mpr rfl, String.ofList_toList⟩

theorem text?_ofString (s : String) : (ofString s).text? = some s := text?_eq_some_iff.mpr rfl

theorem ofString_injective : Function.Injective ofString := by
  intro s s' h
  have htext := text?_ofString s
  rw [h, text?_ofString] at htext
  exact (Option.some.inj htext).symm

theorem form_separator_iff {t : Token} : t.form = .separator ↔ t = ofString "--" := by
  constructor
  · intro h
    unfold form at h
    split at h
    · rfl
    · cases h
    · cases h
    · cases h
    · cases h
  · rintro rfl
    rfl

/-- Whether the token is an option whose value stands in the next one. -/
def awaitsValue (t : Token) : Bool :=
  match t.form with
  | .long name none => Setting.all.any fun s => Token.ofString s.name = name
  | _ => false

theorem ne_separator (h : t.isPlain = true) : t ≠ ofString "--" := by
  rintro rfl
  exact absurd h (by decide)

theorem awaitsValue_of_isPlain (h : t.isPlain = true) : t.awaitsValue = false := by
  unfold isPlain at h
  rw [awaitsValue]
  cases hform : t.form with
  | word | cluster => rfl
  | separator | long => simp [hform] at h

theorem awaitsValue_setting {s : Setting} (h : t.form = .long (ofString s.name) none) :
    t.awaitsValue = true := by
  rw [awaitsValue, h]
  cases s <;> decide

theorem awaitsValue_switch {s : Switch} (h : t.form = .long (ofString s.name) none) :
    t.awaitsValue = false := by
  rw [awaitsValue, h]
  cases s <;> decide

theorem cluster_ne_nil {shorts : Token} (h : t.form = .cluster shorts) : shorts ≠ [] := by
  rintro rfl
  unfold form at h
  split at h
  · cases h
  · cases h
  · cases h
  · next hone => exact hone (Form.cluster.inj h)
  · cases h

end Token

theorem foldlM_cons_eq_ok {ε α β : Type} {f : β → α → Except ε β} {a : α} {as : List α}
    {b last : β} :
    (a :: as).foldlM f b = .ok last ↔ ∃ b', f b a = .ok b' ∧ as.foldlM f b' = .ok last := by
  rw [List.foldlM_cons]
  cases f b a with
  | error e => simp [bind, Except.bind]
  | ok b' => simp [bind, Except.bind]

/-- What the switch of each short option in a cluster is. -/
def switchesOf (shorts : Token) : List (Option Switch) :=
  shorts.map fun glyph => glyph.char?.bind Reading.short?

theorem find?_setting {name : Token} {s : Setting} :
    (Setting.all.find? fun s => Token.ofString s.name = name) = some s ↔
      name = Token.ofString s.name := by
  constructor
  · intro h
    have hname : Token.ofString s.name = name := by simpa using List.find?_some h
    exact hname.symm
  · rintro rfl
    cases s <;> decide

theorem find?_switch {name : Token} {s : Switch} :
    ((Setting.all.find? fun s => Token.ofString s.name = name) = none ∧
      (Switch.all.find? fun s => Token.ofString s.name = name) = some s) ↔
      name = Token.ofString s.name := by
  constructor
  · rintro ⟨-, h⟩
    have hname : Token.ofString s.name = name := by simpa using List.find?_some h
    exact hname.symm
  · rintro rfl
    cases s <;> decide

namespace Reading

theorem text_eq_ok_iff {t : Token} {s : String} : text t = .ok s ↔ t.text? = some s := by
  rw [text]
  cases t.text? <;> simp

theorem assign_eq_ok_iff {r r' : Request} {s : Setting} {value : Token} :
    assign r s value = .ok r' ↔
      r.value s = none ∧ ∃ v, value.text? = some v ∧
        r' = { r with value := fun s' => if s' = s then some v else r.value s' } := by
  rw [assign]
  cases hs : r.value s with
  | some v => simp
  | none =>
    cases hv : value.text? with
    | none => simp [text, hv]
    | some v => simp [text, hv, eq_comm]

theorem keeps_of_assign {r r' : Request} {s : Setting} {value : Token}
    (h : assign r s value = .ok r') : r'.coverage = r.coverage ∧ r'.ignored = r.ignored := by
  obtain ⟨-, v, -, rfl⟩ := assign_eq_ok_iff.mp h
  exact ⟨rfl, rfl⟩

theorem keeps_of_turnOn {r r' : Request} {s : Switch} (h : turnOn r s = .ok r') :
    r'.coverage = r.coverage ∧ r'.ignored = r.ignored := by
  cases s with
  | optimize | noOptimize | dryRun =>
    rw [turnOn] at h
    split at h
    · cases h
    · cases h
      exact ⟨rfl, rfl⟩
  | verbose =>
    cases h
    exact ⟨rfl, rfl⟩
  | help | version => cases h

theorem coverage_of_assign {r r' : Request} {s : Setting} {value : Token}
    (h : assign r s value = .ok r') : r'.coverage = r.coverage := (keeps_of_assign h).1

theorem coverage_of_turnOn {r r' : Request} {s : Switch} (h : turnOn r s = .ok r') :
    r'.coverage = r.coverage := (keeps_of_turnOn h).1

/-- The reading comes to a request, once what is pending is settled. -/
structure Settles (q : Reading) (r : Request) : Prop where
  request : settledRequest q.request q.pending = .ok r
  covered : q.covered = r.coverage.isSome

/-- Reads on to the end, among options or after the separator. -/
def finish (q : Reading) : (options : Bool) → List Token → Except Usage Request
  | true, tokens => do return (← (← q.takeAll tokens).settle).request
  | false, tokens => do return (← (← q.takeRest tokens).settle).request

theorem parse_eq (tokens : List Token) : parse tokens = start.finish true tokens := rfl

theorem settles_start : start.Settles .empty := ⟨rfl, rfl⟩

section Steps

variable {q q' : Reading} {r r' last : Request} {t : Token} {rest : List Token}

theorem settle_of_error {e : Usage} (h : settledRequest q.request q.pending = .error e) :
    q.settle = .error e := by
  rw [settle, h]
  rfl

theorem Settles.settle_eq (hq : q.Settles r) : q.settle = .ok ⟨r, .nothing, q.covered⟩ := by
  rw [settle, hq.request]
  rfl

theorem Settles.not_awaiting (hq : q.Settles r) (s : Setting) : q.pending ≠ .setting s none := by
  intro hpending
  have hrequest := hq.request
  rw [hpending] at hrequest
  cases hrequest

theorem Settles.advance_eq (hq : q.Settles r) (f : Request → Except Usage Request) :
    q.advance f = (f r).map fun r' => ⟨r', .nothing, q.covered⟩ := by
  rw [advance, hq.settle_eq]
  rfl

theorem Settles.next (hq : q.Settles r) (h : r'.coverage = r.coverage) :
    Settles ⟨r', .nothing, q.covered⟩ r' := ⟨rfl, by rw [h]; exact hq.covered⟩

theorem finish_nil (options : Bool) (q : Reading) :
    q.finish options [] = settledRequest q.request q.pending := by
  have hsettle : (do return (← q.settle).request : Except Usage Request) =
      settledRequest q.request q.pending := by
    rw [settle]
    cases settledRequest q.request q.pending <;> rfl
  cases options <;> exact hsettle

theorem finish_separator (ht : t.form = .separator) :
    q.finish true (t :: rest) = q.finish false rest := by
  rw [finish, finish, takeAll, if_pos ht]

theorem finish_option (ht : t.form ≠ .separator) :
    q.finish true (t :: rest) =
      match q.takeOne t with
      | .ok q' => q'.finish true rest
      | .error e => .error e := by
  rw [finish, takeAll, if_neg ht]
  cases q.takeOne t <;> rfl

theorem finish_token :
    q.finish false (t :: rest) =
      match q.take t with
      | .ok q' => q'.finish false rest
      | .error e => .error e := by
  rw [finish, takeRest]
  cases q.take t <;> rfl

theorem takeOne_of_isPlain (ht : t.isPlain = true) : q.takeOne t = q.takeWord t := by
  unfold Token.isPlain at ht
  rw [takeOne]
  cases hform : t.form with
  | word => rfl
  | cluster shorts =>
    rw [hform] at ht
    exact if_pos ht
  | separator | long => simp [hform] at ht

theorem ne_separator_of_isPlain (ht : t.isPlain = true) : t.form ≠ .separator := by
  intro hform
  simp [Token.isPlain, hform] at ht

theorem takeWord_eq_take (h : ∀ s, q.pending ≠ .setting s none) (t : Token) :
    q.takeWord t = q.take t := by
  rw [takeWord]
  split
  · next s hpending => exact absurd hpending (h s)
  · rfl

theorem finish_plain {options : Bool} (h : ∀ s, q.pending ≠ .setting s none)
    (ht : options = true → t.isPlain = true) :
    q.finish options (t :: rest) =
      match q.take t with
      | .ok q' => q'.finish options rest
      | .error e => .error e := by
  cases options with
  | false => exact finish_token
  | true =>
    have hplain := ht rfl
    rw [finish_option (ne_separator_of_isPlain hplain), takeOne_of_isPlain hplain,
      takeWord_eq_take h]

theorem mapM_text_concat {tokens : List Token} {texts : List String} {s : String}
    (h : tokens.mapM text = .ok texts) (hs : t.text? = some s) :
    (tokens ++ [t]).mapM text = .ok (texts ++ [s]) := by
  rw [List.mapM_append, h, List.mapM_cons, text_eq_ok_iff.mpr hs]
  rfl

theorem mapM_text_concat_error {tokens : List Token} {e : Usage}
    (h : tokens.mapM text = .error e) (t : Token) :
    (tokens ++ [t]).mapM text = .error e := by
  rw [List.mapM_append, h]
  rfl

theorem take_coverage {s : String} (hq : q.Settles r) (hr : r.coverage = none)
    (hs : t.text? = some s) :
    ∃ q', q.take t = .ok q' ∧ q'.Settles { r with coverage := some s } := by
  have hcovered : q.covered = false := by rw [hq.covered, hr]; rfl
  refine ⟨⟨r, .coverage t, true⟩, ?_, ?_, rfl⟩
  · rw [take, hcovered, if_neg Bool.false_ne_true, hq.settle_eq]
    rfl
  · rw [settledRequest, text_eq_ok_iff.mpr hs]
    rfl

theorem take_ignored {s : String} (hq : q.Settles r) (hr : r.coverage ≠ none)
    (hs : t.text? = some s) :
    ∃ q', q.take t = .ok q' ∧ q'.Settles { r with ignored := r.ignored ++ [s] } := by
  have hcovered : q.covered = true := by rw [hq.covered, Option.isSome_iff_ne_none]; exact hr
  rw [take, if_pos hcovered]
  split
  · next tokens hpending =>
    refine ⟨_, rfl, ?_, hq.covered⟩
    have hrequest := hq.request
    rw [hpending, settledRequest] at hrequest
    rw [settledRequest]
    cases htexts : tokens.mapM text with
    | error e =>
      rw [htexts] at hrequest
      cases hrequest
    | ok texts =>
      rw [htexts] at hrequest
      cases hrequest
      rw [mapM_text_concat htexts hs, List.append_assoc]
      rfl
  · refine ⟨⟨r, .ignored [t], q.covered⟩, by rw [hq.settle_eq]; rfl, ?_, hq.covered⟩
    rw [settledRequest, List.mapM_cons, text_eq_ok_iff.mpr hs]
    rfl

theorem take_text {s : String} (hq : q.Settles r) (hs : t.text? = some s) :
    ∃ q', q.take t = .ok q' ∧ q'.Settles (r.receive s) := by
  by_cases hr : r.coverage = none
  · rw [Request.receive, if_pos hr]
    exact take_coverage hq hr hs
  · rw [Request.receive, if_neg hr]
    exact take_ignored hq hr hs

/-- A reading in which a text has been taken that is none. -/
structure Stuck (q : Reading) : Prop where
  request : ∃ e, settledRequest q.request q.pending = .error e
  not_awaiting : ∀ s, q.pending ≠ .setting s none

theorem take_cases (hq' : q.take t = .ok q') :
    (∃ tokens, q.pending = .ignored tokens ∧
      q' = ⟨q.request, .ignored (tokens ++ [t]), q.covered⟩) ∨
      ∃ r, settledRequest q.request q.pending = .ok r ∧
        (q' = ⟨r, .ignored [t], q.covered⟩ ∨ q' = ⟨r, .coverage t, true⟩) := by
  have hsettle (f : Reading → Reading) (h : q.settle.map f = .ok q') :
      ∃ r, settledRequest q.request q.pending = .ok r ∧ q' = f ⟨r, .nothing, q.covered⟩ := by
    rw [settle] at h
    cases hr : settledRequest q.request q.pending with
    | error e =>
      rw [hr] at h
      cases h
    | ok r =>
      rw [hr] at h
      cases h
      exact ⟨r, rfl, rfl⟩
  rw [take] at hq'
  by_cases hcovered : q.covered = true
  · rw [if_pos hcovered] at hq'
    split at hq'
    · next tokens hpending =>
      cases hq'
      exact .inl ⟨tokens, hpending, rfl⟩
    · obtain ⟨r, hr, rfl⟩ := hsettle _ hq'
      exact .inr ⟨r, hr, .inl rfl⟩
  · rw [if_neg hcovered] at hq'
    obtain ⟨r, hr, rfl⟩ := hsettle _ hq'
    exact .inr ⟨r, hr, .inr rfl⟩

theorem stuck_of_take (ht : t.text? = none) (hq' : q.take t = .ok q') : q'.Stuck := by
  have htext : text t = .error .invalidText := by rw [text, ht]
  rcases take_cases hq' with ⟨tokens, -, rfl⟩ | ⟨r, -, rfl | rfl⟩
  · have hlast : ∃ e, (tokens ++ [t]).mapM text = .error e := by
      rw [List.mapM_append]
      cases tokens.mapM text with
      | error e => exact ⟨e, rfl⟩
      | ok texts => exact ⟨_, by rw [List.mapM_cons, htext]; rfl⟩
    obtain ⟨e, he⟩ := hlast
    exact ⟨⟨e, by rw [settledRequest, he]; rfl⟩, nofun⟩
  · exact ⟨⟨_, by rw [settledRequest, List.mapM_cons, htext]; rfl⟩, nofun⟩
  · exact ⟨⟨_, by rw [settledRequest, htext]; rfl⟩, nofun⟩

theorem Stuck.take (hq : q.Stuck) (hq' : q.take t = .ok q') : q'.Stuck := by
  obtain ⟨⟨e, he⟩, -⟩ := hq
  rcases take_cases hq' with ⟨tokens, hpending, rfl⟩ | ⟨r, hr, -⟩
  · rw [hpending, settledRequest] at he
    cases htexts : tokens.mapM text with
    | error e' => exact ⟨⟨e', by rw [settledRequest, mapM_text_concat_error htexts]; rfl⟩, nofun⟩
    | ok texts =>
      rw [htexts] at he
      cases he
  · rw [hr] at he
    cases he

theorem advance_of_error {e : Usage} (h : settledRequest q.request q.pending = .error e)
    (f : Request → Except Usage Request) : q.advance f = .error e := by
  rw [advance, settle_of_error h]
  rfl

theorem takeLong_of_error {e : Usage} (h : settledRequest q.request q.pending = .error e)
    (name : Token) (value : Option Token) : q.takeLong name value ≠ .ok q' := by
  rw [takeLong]
  split
  · split
    · rw [advance_of_error h]
      exact nofun
    · rw [settle_of_error h]
      exact nofun
  · split
    · split
      · exact nofun
      · rw [advance_of_error h]
        exact nofun
    · exact nofun

theorem takeCluster_of_error {e : Usage} (h : settledRequest q.request q.pending = .error e)
    {shorts : Token} (hshorts : shorts ≠ []) : q.takeCluster shorts ≠ .ok q' := by
  cases shorts with
  | nil => exact absurd rfl hshorts
  | cons glyph rest =>
    rw [takeCluster]
    split
    · rw [advance_of_error h]
      exact nofun
    · exact nofun

theorem takeOne_of_error {e : Usage} (h : settledRequest q.request q.pending = .error e)
    (hplain : t.isPlain = false) (ht : t.form ≠ .separator) : q.takeOne t ≠ .ok q' := by
  rw [takeOne]
  unfold Token.isPlain at hplain
  cases hform : t.form with
  | separator => exact absurd hform ht
  | word => simp [hform] at hplain
  | long name value => exact takeLong_of_error h name value
  | cluster shorts =>
    rw [hform] at hplain
    simp only [hplain, Bool.false_eq_true, if_false]
    exact takeCluster_of_error h (Token.cluster_ne_nil hform)

theorem Stuck.takeOne (hq : q.Stuck) (ht : t.form ≠ .separator) (hq' : q.takeOne t = .ok q') :
    q'.Stuck := by
  cases hplain : t.isPlain with
  | true =>
    rw [takeOne_of_isPlain hplain, takeWord_eq_take hq.not_awaiting] at hq'
    exact hq.take hq'
  | false =>
    obtain ⟨e, he⟩ := hq.request
    exact absurd hq' (takeOne_of_error he hplain ht)

/-- Nothing that follows makes up for a text that is none. -/
theorem Stuck.finish (hq : q.Stuck) (options : Bool) (tokens : List Token) :
    q.finish options tokens ≠ .ok last := by
  induction tokens generalizing q options with
  | nil =>
    obtain ⟨e, he⟩ := hq.request
    rw [finish_nil, he]
    exact nofun
  | cons t rest ih =>
    cases options with
    | false =>
      rw [finish_token]
      cases hq' : q.take t with
      | error e => exact nofun
      | ok q' => exact ih (hq.take hq') false
    | true =>
      by_cases ht : t.form = .separator
      · rw [finish_separator ht]
        exact ih hq false
      · rw [finish_option ht]
        cases hq' : q.takeOne t with
        | error e => exact nofun
        | ok q' => exact ih (hq.takeOne ht hq') true

theorem takeLong_setting {s : Setting} {value : Token} (hq : q.Settles r) :
    q.takeLong (.ofString s.name) (some value) =
      (assign r s value).map fun r' => ⟨r', .nothing, q.covered⟩ := by
  rw [takeLong, find?_setting.mpr rfl]
  exact hq.advance_eq _

theorem takeLong_setting_none {s : Setting} (hq : q.Settles r) :
    q.takeLong (.ofString s.name) none = .ok ⟨r, .setting s none, q.covered⟩ := by
  rw [takeLong, find?_setting.mpr rfl]
  dsimp only
  rw [hq.settle_eq]
  rfl

theorem takeLong_switch {s : Switch} (hq : q.Settles r) :
    q.takeLong (.ofString s.name) none =
      (turnOn r s).map fun r' => ⟨r', .nothing, q.covered⟩ := by
  obtain ⟨hnone, hsome⟩ := find?_switch.mpr (rfl : Token.ofString s.name = _)
  rw [takeLong, hnone, hsome]
  exact hq.advance_eq _

theorem takeLong_cases {name : Token} {value : Option Token}
    (h : q.takeLong name value = .ok q') :
    (∃ s : Setting, name = .ofString s.name) ∨
      ∃ s : Switch, name = .ofString s.name ∧ value = none := by
  rw [takeLong] at h
  split at h
  · next s hs => exact .inl ⟨s, find?_setting.mp hs⟩
  · next hnone =>
    split at h
    · next s hs =>
      split at h
      · cases h
      · exact .inr ⟨s, find?_switch.mp ⟨hnone, hs⟩, rfl⟩
    · cases h

theorem takeCluster_of_turnOn {shorts : Token} {ss : List Switch} (hq : q.Settles r)
    (hss : switchesOf shorts = ss.map some) (h : ss.foldlM turnOn r = .ok r') :
    ∃ q', q.takeCluster shorts = .ok q' ∧ q'.Settles r' := by
  induction shorts generalizing q r ss with
  | nil =>
    obtain rfl : ss = [] := List.map_eq_nil_iff.mp hss.symm
    cases h
    exact ⟨q, rfl, hq⟩
  | cons glyph rest ih =>
    cases ss with
    | nil => cases hss
    | cons s ss =>
      obtain ⟨hs, hss⟩ := List.cons.inj hss
      replace hs : glyph.char?.bind short? = some s := hs
      obtain ⟨r₁, hr, h⟩ := foldlM_cons_eq_ok.mp h
      obtain ⟨q', hq', hsettles⟩ := ih (hq.next (coverage_of_turnOn hr)) hss h
      refine ⟨q', ?_, hsettles⟩
      rw [takeCluster, hs]
      dsimp only
      rw [hq.advance_eq, hr]
      exact hq'

theorem takeCluster_eq_ok {shorts : Token} (hq : q.Settles r)
    (h : q.takeCluster shorts = .ok q') :
    ∃ (ss : List Switch) (r' : Request), switchesOf shorts = ss.map some ∧
      ss.foldlM turnOn r = .ok r' ∧ q'.Settles r' := by
  induction shorts generalizing q r with
  | nil =>
    cases h
    exact ⟨[], r, rfl, rfl, hq⟩
  | cons glyph rest ih =>
    rw [takeCluster] at h
    split at h
    · next s hs =>
      rw [hq.advance_eq] at h
      cases hr : turnOn r s with
      | error e =>
        rw [hr] at h
        cases h
      | ok r₁ =>
        rw [hr] at h
        obtain ⟨ss, r', hss, hfold, hsettles⟩ := ih (hq.next (coverage_of_turnOn hr)) h
        refine ⟨s :: ss, r', ?_, foldlM_cons_eq_ok.mpr ⟨r₁, hr, hfold⟩, hsettles⟩
        rw [List.map_cons, ← hss, ← hs]
        rfl
    · cases h

end Steps

end Reading

end CommandLine

end WasmBuild
